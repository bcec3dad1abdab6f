import Mathlib.Algebra.Group.Nat.Defs
import Slstatus.Basic
import Slstatus.Lib.Netlink
import Slstatus.Lib.WhileLoop

/-! `findattr` of wifi.c over the bytes of the receive buffer. Pointers are
offsets into the buffer, and a header that reaches past the buffer is a fault. -/

namespace Slstatus

open Netlink

/-- `*len = nla.nla_len - NLA_HDRLEN` as a 64-bit `size_t`. -/
def attrLen (nlaLen : Nat) : Nat := (nlaLen + (2 ^ 64 - 4)) % 2 ^ 64

/-- One pass of the loop at offset `p`: leave with the payload's offset and
length, leave with NULL, or go on at the next header. -/
def findattrBody (attr : Nat) (mem : Bytes) (e : Nat) (p : Nat) :
    Nat ⊕ Except Fault (Option (Nat × Nat)) :=
  if p < e then
    match mem.drop p with
    | l0 :: l1 :: t0 :: t1 :: _ =>
      if word16 t0 t1 = attr then .inr (.ok (some (p + 4, attrLen (word16 l0 l1))))
      else .inl (p + align (word16 l0 l1))
    | _ => .inr (.error .outOfBounds)
  else .inr (.ok none)

def findattr (fuel : Nat) (attr : Nat) (mem : Bytes) (p e : Nat) :
    Option (Except Fault (Option (Nat × Nat))) :=
  WhileLoop.run (findattrBody attr mem e) fuel p

theorem attrLen_header (a : Attr) : attrLen a.len = a.payload.length := by
  have := a.length_lt
  unfold attrLen Attr.len
  omega

theorem findattrBody_unpadded (attr : Nat) {p e : Nat} {mem rest : Bytes} (a : Attr) (he : p < e)
    (hmem : mem.drop p = a.unpadded ++ rest) :
    findattrBody attr mem e p =
      if a.type = attr then .inr (.ok (some (p + 4, a.payload.length)))
      else .inl (p + align a.len) := by
  have hlen : word16 (UInt8.ofNat a.len) (UInt8.ofNat (a.len / 256)) = a.len :=
    word16_ofNat a.length_lt
  have htype := word16_ofNat a.type_lt
  simp only [findattrBody, if_pos he, hmem, Attr.unpadded, le16, List.cons_append, List.nil_append,
    hlen, htype, attrLen_header]

theorem findattrBody_end (attr : Nat) {p e : Nat} (mem : Bytes) (he : e ≤ p) :
    findattrBody attr mem e p = .inr (.ok none) := by
  simp only [findattrBody, if_neg (Nat.not_lt.mpr he)]

theorem findattr_encodeTo (attr : Nat) {p : Nat} {mem post : Bytes} (padLast : Bool)
    (as : List Attr) (hmem : mem.drop p = encodeTo padLast as ++ post) :
    findattr (as.length + 1) attr mem p (p + (encodeTo padLast as).length) =
      some (.ok ((locate attr as).map (fun r => (p + r.1, r.2)))) := by
  -- the end of the list stays where it is while the cursor moves
  suffices ∀ e, e = p + (encodeTo padLast as).length → findattr (as.length + 1) attr mem p e =
      some (.ok ((locate attr as).map (fun r => (p + r.1, r.2)))) from this _ rfl
  induction as generalizing p with
  | nil =>
    intro e he
    exact WhileLoop.run_exit (findattrBody_end attr mem (Nat.le_of_eq he)) 0
  | cons a as ih =>
    intro e he
    have hpos : 4 ≤ a.len := Nat.le_add_left 4 a.payload.length
    have hle := le_align a.len
    -- the header and the payload of `a`, what follows them, and the end of the list
    have hhead : (∃ rest, mem.drop p = a.unpadded ++ rest) ∧ p < e ∧
        (as = [] → e ≤ p + align a.len) := by
      cases as with
      | nil =>
        cases padLast with
        | false =>
          have hlen : (encodeTo false [a]).length = a.len := a.unpadded_length
          exact ⟨⟨post, hmem⟩, by omega, fun _ => by omega⟩
        | true =>
          have hlen : (encodeTo true [a]).length = align a.len := by
            rw [encodeTo_true, encodeAll_cons, List.length_append, a.encode_length]
            rfl
          have hcut := hmem.trans (List.append_assoc a.unpadded _ post)
          exact ⟨⟨_, hcut⟩, by omega, fun _ => by omega⟩
      | cons b bs =>
        rw [encodeTo_cons padLast a (List.cons_ne_nil b bs)] at hmem he
        rw [List.length_append, a.encode_length] at he
        rw [a.encode_eq, padded, List.append_assoc, List.append_assoc] at hmem
        exact ⟨⟨_, hmem⟩, by omega, fun h => by cases h⟩
    obtain ⟨⟨rest, hcut⟩, hlt, hlast⟩ := hhead
    have hbody := findattrBody_unpadded attr a hlt hcut
    by_cases ht : a.type = attr
    · rw [if_pos ht] at hbody
      simpa [findattr, locate, ht] using WhileLoop.run_exit hbody (as.length + 1)
    · rw [if_neg ht] at hbody
      have hrun : findattr (as.length + 1) attr mem (p + align a.len) e =
          some (.ok ((locate attr as).map (fun r => (p + align a.len + r.1, r.2)))) := by
        cases as with
        | nil => exact WhileLoop.run_exit (findattrBody_end attr mem (hlast rfl)) 0
        | cons b bs =>
          rw [encodeTo_cons padLast a (List.cons_ne_nil b bs)] at hmem he
          rw [List.length_append, a.encode_length] at he
          have hnext : mem.drop (p + align a.len) = encodeTo padLast (b :: bs) ++ post := by
            rw [← List.drop_drop, hmem, List.append_assoc]
            exact List.drop_left' a.encode_length
          exact ih hnext e (by omega)
      rw [findattr, List.length_cons, WhileLoop.run_next hbody]
      simpa [findattr, locate, ht, Function.comp_def, Nat.add_assoc] using hrun

theorem findattr_encoded (attr : Nat) {p : Nat} {mem post : Bytes} (as : List Attr)
    (hmem : mem.drop p = encodeAll as ++ post) :
    findattr (as.length + 1) attr mem p (p + (encodeAll as).length) =
      some (.ok ((locate attr as).map (fun r => (p + r.1, r.2)))) := by
  rw [← encodeTo_true] at hmem ⊢
  exact findattr_encodeTo attr true as hmem

theorem findattr_zero_length (attr : Nat) {p e : Nat} {mem rest : Bytes} {t0 t1 : UInt8} (he : p < e)
    (hmem : mem.drop p = 0 :: 0 :: t0 :: t1 :: rest) (ht : word16 t0 t1 ≠ attr) (fuel : Nat) :
    findattr fuel attr mem p e = none := by
  apply WhileLoop.run_stuck
  simp only [findattrBody, if_pos he, hmem, if_neg ht]
  rfl

/-- The search undoes the encoding: it finds the payload of the first attribute of
the type, and NULL says that there is none. -/
theorem findattr_inverts_encoding (attr : Nat) (padLast : Bool) (as : List Attr)
    (pre post : Bytes) :
    ∃ fuel found,
      findattr fuel attr (pre ++ encodeTo padLast as ++ post) pre.length
        (pre.length + (encodeTo padLast as).length) = some (.ok found) ∧
      (found = none ↔ ∀ a ∈ as, a.type ≠ attr) ∧
      ∀ before a after, as = before ++ a :: after → (∀ b ∈ before, b.type ≠ attr) →
        a.type = attr →
        found = some (pre.length + ((encodeAll before).length + 4), a.payload.length) := by
  have hmem : (pre ++ encodeTo padLast as ++ post).drop pre.length =
      encodeTo padLast as ++ post := by
    rw [List.append_assoc]
    exact List.drop_left
  refine ⟨_, _, findattr_encodeTo attr padLast as hmem, ?_, ?_⟩
  · rw [Option.map_eq_none_iff, locate_eq_none]
  · intro before a after has hbefore ha
    rw [has, locate_append hbefore, locate, if_pos ha]
    rfl

end Slstatus
