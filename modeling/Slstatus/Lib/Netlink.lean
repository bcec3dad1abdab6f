import Mathlib.Algebra.Group.Nat.Defs
import Mathlib.Data.List.Basic

/-! The netlink wire format on a little-endian host. An attribute is a header
of two 16-bit words, length and type, its payload, and zeros up to the next
multiple of four. -/

namespace Netlink

def word16 (b0 b1 : UInt8) : Nat := b0.toNat + 256 * b1.toNat

def le16 (n : Nat) : List UInt8 := [UInt8.ofNat n, UInt8.ofNat (n / 256)]

def le32 (n : Nat) : List UInt8 := le16 n ++ le16 (n / 65536)

theorem word16_ofNat {n : Nat} (h : n < 65536) :
    word16 (UInt8.ofNat n) (UInt8.ofNat (n / 256)) = n := by
  simp only [word16, UInt8.toNat_ofNat']
  omega

def word32 (b0 b1 b2 b3 : UInt8) : Nat := word16 b0 b1 + 65536 * word16 b2 b3

theorem word32_ofNat {n : Nat} (h : n < 2 ^ 32) :
    word32 (UInt8.ofNat n) (UInt8.ofNat (n / 256)) (UInt8.ofNat (n / 65536))
      (UInt8.ofNat (n / 65536 / 256)) = n := by
  simp only [word32, word16, UInt8.toNat_ofNat']
  omega

def align (n : Nat) : Nat := (n + 3) / 4 * 4

theorem le_align (n : Nat) : n ≤ align n := by
  unfold align
  omega

theorem align_align (n : Nat) : align (align n) = align n := by
  unfold align
  omega

def padded (bs : List UInt8) : List UInt8 :=
  bs ++ List.replicate (align bs.length - bs.length) 0

theorem padded_length (bs : List UInt8) : (padded bs).length = align bs.length := by
  have := le_align bs.length
  simp only [padded, List.length_append, List.length_replicate]
  omega

theorem padded_append {as : List UInt8} (has : align as.length = as.length) (bs : List UInt8) :
    padded (as ++ bs) = as ++ padded bs := by
  have hlen : align (as ++ bs).length - (as ++ bs).length = align bs.length - bs.length := by
    rw [List.length_append]
    unfold align at *
    omega
  rw [padded, hlen, List.append_assoc, padded]

theorem padded_of_aligned {bs : List UInt8} (h : align bs.length = bs.length) : padded bs = bs := by
  rw [padded, h, Nat.sub_self, List.replicate_zero, List.append_nil]

/-- Pieces one after the other, each beginning at a multiple of four, the last of them
with or without the zeros behind it. -/
def concat (padLast : Bool) : List (List UInt8) → List UInt8
  | [] => []
  | [x] => if padLast then padded x else x
  | x :: y :: xs => padded x ++ concat padLast (y :: xs)

theorem concat_cons (padLast : Bool) (x : List UInt8) {xs : List (List UInt8)} (hxs : xs ≠ []) :
    concat padLast (x :: xs) = padded x ++ concat padLast xs := by
  obtain ⟨y, ys, rfl⟩ := List.exists_cons_of_ne_nil hxs
  rfl

theorem concat_true_cons (x : List UInt8) (xs : List (List UInt8)) :
    concat true (x :: xs) = padded x ++ concat true xs := by
  cases xs with
  | nil => exact (List.append_nil (padded x)).symm
  | cons y ys => rfl

theorem concat_append (padLast : Bool) (xs : List (List UInt8)) {ys : List (List UInt8)}
    (hys : ys ≠ []) : concat padLast (xs ++ ys) = concat true xs ++ concat padLast ys := by
  induction xs with
  | nil => rfl
  | cons x xs ih =>
    have hne : xs ++ ys ≠ [] := by simp [hys]
    rw [List.cons_append, concat_cons padLast x hne, ih, concat_true_cons, List.append_assoc]

theorem concat_head (padLast : Bool) (x : List UInt8) (xs : List (List UInt8)) :
    ∃ rest, concat padLast (x :: xs) = x ++ rest := by
  cases xs with
  | nil =>
    cases padLast with
    | false => exact ⟨[], (List.append_nil x).symm⟩
    | true => exact ⟨_, rfl⟩
  | cons y ys => exact ⟨_, List.append_assoc _ _ _⟩

theorem padded_concat (padLast : Bool) (xs : List (List UInt8)) :
    padded (concat padLast xs) = concat true xs := by
  induction xs with
  | nil => exact padded_of_aligned (by simp [concat, align])
  | cons x xs ih =>
    have hx : align (padded x).length = (padded x).length := by
      rw [padded_length, align_align]
    cases xs with
    | nil =>
      cases padLast with
      | false => rfl
      | true => exact padded_of_aligned hx
    | cons y ys =>
      rw [concat_cons padLast x (List.cons_ne_nil y ys), padded_append hx, ih, ← concat_true_cons]

structure Attr where
  type : Nat
  payload : List UInt8
  type_lt : type < 65536
  length_lt : payload.length + 4 < 65536

namespace Attr

def len (a : Attr) : Nat := a.payload.length + 4

def encode (a : Attr) : List UInt8 :=
  le16 a.len ++ le16 a.type ++ a.payload ++ List.replicate (align a.len - a.len) 0

theorem encode_length (a : Attr) : a.encode.length = align a.len := by
  have := le_align a.len
  simp only [encode, le16, List.length_append, List.length_cons, List.length_nil,
    List.length_replicate]
  unfold len at *
  omega

def unpadded (a : Attr) : List UInt8 := le16 a.len ++ le16 a.type ++ a.payload

theorem unpadded_length (a : Attr) : a.unpadded.length = a.len := by
  simp only [unpadded, le16, List.length_append, List.length_cons, List.length_nil]
  unfold len
  omega

theorem encode_eq (a : Attr) : a.encode = padded a.unpadded := by
  rw [padded, a.unpadded_length]
  rfl

end Attr

def encodeAll (as : List Attr) : List UInt8 := as.flatMap Attr.encode

theorem encodeAll_cons (a : Attr) (as : List Attr) :
    encodeAll (a :: as) = a.encode ++ encodeAll as := rfl

def encodeTo (padLast : Bool) (as : List Attr) : List UInt8 :=
  concat padLast (as.map Attr.unpadded)

theorem encodeTo_cons (padLast : Bool) (a : Attr) {as : List Attr} (has : as ≠ []) :
    encodeTo padLast (a :: as) = a.encode ++ encodeTo padLast as := by
  have hne : as.map Attr.unpadded ≠ [] := by simpa using has
  rw [encodeTo, List.map_cons, concat_cons padLast _ hne, a.encode_eq, encodeTo]

theorem encodeTo_true (as : List Attr) : encodeTo true as = encodeAll as := by
  induction as with
  | nil => rfl
  | cons a as ih =>
    cases as with
    | nil =>
      rw [encodeAll_cons, a.encode_eq]
      exact (List.append_nil _).symm
    | cons b bs => rw [encodeTo_cons true a (List.cons_ne_nil b bs), ih, encodeAll_cons a]

theorem encodeTo_append (padLast : Bool) (as : List Attr) {bs : List Attr} (hbs : bs ≠ []) :
    encodeTo padLast (as ++ bs) = encodeAll as ++ encodeTo padLast bs := by
  have hne : bs.map Attr.unpadded ≠ [] := by simpa using hbs
  rw [encodeTo, List.map_append, concat_append padLast _ hne, ← encodeTo_true]
  rfl

/-- Offset and length of the payload of the first attribute of type `t`. -/
def locate (t : Nat) : List Attr → Option (Nat × Nat)
  | [] => none
  | a :: as =>
    if a.type = t then some (4, a.payload.length)
    else (locate t as).map (fun r => (align a.len + r.1, r.2))

theorem locate_eq_none {t : Nat} {as : List Attr} :
    locate t as = none ↔ ∀ a ∈ as, a.type ≠ t := by
  induction as with
  | nil => simp [locate]
  | cons a as ih =>
    by_cases ha : a.type = t
    · simp [locate, ha]
    · simp [locate, ha, ih]

theorem locate_append {t : Nat} {as : List Attr} (has : ∀ a ∈ as, a.type ≠ t) (bs : List Attr) :
    locate t (as ++ bs) = (locate t bs).map (fun r => ((encodeAll as).length + r.1, r.2)) := by
  induction as with
  | nil => simp [encodeAll]
  | cons a as ih =>
    have ha : a.type ≠ t := has a List.mem_cons_self
    have hrest := ih (fun b hb => has b (List.mem_cons_of_mem a hb))
    simp only [List.cons_append, locate, if_neg ha, hrest, Option.map_map, encodeAll_cons,
      List.length_append, a.encode_length]
    congr 1
    funext r
    simp [Nat.add_assoc]

theorem locate_slice_to {t : Nat} {as : List Attr} {a : Attr} (padLast : Bool)
    (h : as.find? (fun b => b.type = t) = some a) (post : List UInt8) :
    ∃ off, locate t as = some (off, a.payload.length) ∧
      ∃ rest, (encodeTo padLast as ++ post).drop off = a.payload ++ rest := by
  obtain ⟨ha, before, after, rfl, hbefore⟩ := List.find?_eq_some_iff_append.mp h
  have htype : a.type = t := by simpa using ha
  have hnone : ∀ b ∈ before, b.type ≠ t := fun b hb => by simpa using hbefore b hb
  refine ⟨(encodeAll before).length + 4, ?_, ?_⟩
  · rw [locate_append hnone, locate, if_pos htype, Option.map_some]
  · obtain ⟨rest, hrest⟩ := concat_head padLast a.unpadded (after.map Attr.unpadded)
    have henc : encodeTo padLast (before ++ a :: after) = encodeAll before ++ (a.unpadded ++ rest) := by
      rw [encodeTo_append padLast before (List.cons_ne_nil a after), ← hrest]
      rfl
    refine ⟨rest ++ post, ?_⟩
    rw [henc, ← List.drop_drop, List.append_assoc, List.drop_left]
    simp [Attr.unpadded, le16]

theorem locate_slice {t : Nat} {as : List Attr} {a : Attr}
    (h : as.find? (fun b => b.type = t) = some a) (post : List UInt8) :
    ∃ off, locate t as = some (off, a.payload.length) ∧
      ∃ rest, (encodeAll as ++ post).drop off = a.payload ++ rest := by
  rw [← encodeTo_true]
  exact locate_slice_to true h post

/-- A message header: where it stands, and the length and the type it gives. -/
structure Header where
  pos : Nat
  len : Nat
  type : Nat
  deriving DecidableEq

def headerAt (bs : List UInt8) (p : Nat) : Option Header :=
  match bs.drop p with
  | l0 :: l1 :: l2 :: l3 :: t0 :: t1 :: _ =>
    if 16 ≤ bs.length - p then some ⟨p, word32 l0 l1 l2 l3, word16 t0 t1⟩ else none
  | _ => none

/-- The first `n` headers from `p` on, where a message of length `l` is followed by
the next one `next l` bytes later. -/
def headers (next : Nat → Nat) (bs : List UInt8) : Nat → Nat → List Header
  | 0, _ => []
  | n + 1, p =>
    match headerAt bs p with
    | some h => h :: headers next bs n (p + next h.len)
    | none => []

def messages (next : Nat → Nat) (bs : List UInt8) : List Header :=
  headers next bs (bs.length + 1) 0

theorem headerAt_of_drop {bs rest : List UInt8} {p : Nat} {l0 l1 l2 l3 t0 t1 : UInt8}
    (h : bs.drop p = l0 :: l1 :: l2 :: l3 :: t0 :: t1 :: rest) (hp : 16 ≤ bs.length - p) :
    headerAt bs p = some ⟨p, word32 l0 l1 l2 l3, word16 t0 t1⟩ := by
  simp only [headerAt, h, if_pos hp]

theorem headerAt_short {bs : List UInt8} {p : Nat} (hp : ¬ 16 ≤ bs.length - p) :
    headerAt bs p = none := by
  unfold headerAt
  split
  · rw [if_neg hp]
  · rfl

theorem headers_short (next : Nat → Nat) {bs : List UInt8} {p : Nat} (n : Nat)
    (hp : ¬ 16 ≤ bs.length - p) : headers next bs n p = [] := by
  cases n with
  | zero => rfl
  | succ n => simp only [headers, headerAt_short hp]

theorem headers_cons (next : Nat → Nat) {bs : List UInt8} {p : Nat} {h : Header} (n : Nat)
    (hp : headerAt bs p = some h) :
    headers next bs (n + 1) p = h :: headers next bs n (p + next h.len) := by
  simp only [headers, hp]

end Netlink
