import Slstatus.Nl80211fam

/-! Which bytes `findattr` can search: the streams of attributes that it walks
through without running off the end. -/

namespace Slstatus

open Netlink

/-- The streams of attributes in which a search stays inside: every header is whole,
no attribute before the one it looks for has length zero, and that one has at
least its header and ends inside. -/
inductive Walkable (attr : Nat) : Bytes → Prop
  | nil : Walkable attr []
  | hit {l0 l1 t0 t1 : UInt8} {rest : Bytes} (htype : word16 t0 t1 = attr)
      (hlen : 4 ≤ word16 l0 l1) (hfit : word16 l0 l1 ≤ rest.length + 4) :
      Walkable attr (l0 :: l1 :: t0 :: t1 :: rest)
  | next {l0 l1 t0 t1 : UInt8} {rest : Bytes} (htype : word16 t0 t1 ≠ attr)
      (hlen : word16 l0 l1 ≠ 0)
      (hrest : Walkable attr ((l0 :: l1 :: t0 :: t1 :: rest).drop (align (word16 l0 l1)))) :
      Walkable attr (l0 :: l1 :: t0 :: t1 :: rest)

def FindattrSafe (attr : Nat) (mem : Bytes) (p e : Nat) : Prop :=
  (∃ fuel found, findattr fuel attr mem p e = some (.ok found) ∧
    ∀ q len, found = some (q, len) → p ≤ q ∧ q + len ≤ e) ∧
  ∀ n, ∀ q ∈ WhileLoop.trace (findattrBody attr mem e) n p, q < e → q + 4 ≤ e

theorem attrLen_of_le {n : Nat} (hn : 4 ≤ n) (hlt : n < 65536) : attrLen n = n - 4 := by
  unfold attrLen
  omega

theorem attrLen_of_lt {n : Nat} (hn : n < 4) : 2 ^ 64 - 4 ≤ attrLen n := by
  unfold attrLen
  omega

theorem word16_lt (b0 b1 : UInt8) : word16 b0 b1 < 65536 := by
  have h0 := b0.toNat_lt
  have h1 := b1.toNat_lt
  unfold word16
  omega

section Body

variable {attr p e : Nat} {mem rest : Bytes} {l0 l1 t0 t1 : UInt8}

theorem findattrBody_hit (hp : p < e) (hmem : mem.drop p = l0 :: l1 :: t0 :: t1 :: rest)
    (htype : word16 t0 t1 = attr) :
    findattrBody attr mem e p = .inr (.ok (some (p + 4, attrLen (word16 l0 l1)))) := by
  simp only [findattrBody, if_pos hp, hmem, if_pos htype]

theorem findattrBody_next (hp : p < e) (hmem : mem.drop p = l0 :: l1 :: t0 :: t1 :: rest)
    (htype : word16 t0 t1 ≠ attr) :
    findattrBody attr mem e p = .inl (p + align (word16 l0 l1)) := by
  simp only [findattrBody, if_pos hp, hmem, if_neg htype]

theorem findattrBody_progress {p' : Nat} (h : findattrBody attr mem e p = .inl p') :
    p' = p ∨ e - p' < e - p := by
  by_cases hp : p < e
  · rw [findattrBody, if_pos hp] at h
    split at h
    · rename_i l0 l1 t0 t1 rest hmem
      by_cases ht : word16 t0 t1 = attr
      · rw [if_pos ht] at h
        cases h
      · rw [if_neg ht] at h
        obtain rfl : p + align (word16 l0 l1) = p' := Sum.inl.inj h
        unfold align
        omega
    · cases h
  · rw [findattrBody_end attr mem (Nat.not_lt.mp hp)] at h
    cases h

end Body

theorem findattr_adequate {attr p e fuel n : Nat} {mem : Bytes}
    {r : Except Fault (Option (Nat × Nat))} (h : findattr fuel attr mem p e = some r)
    (hn : e - p < n) : findattr n attr mem p e = some r :=
  WhileLoop.run_mono
    (WhileLoop.run_measure (fun q => e - q) (fun _ _ hbody => findattrBody_progress hbody) h) hn

/-- A search with all the passes it can use; one that needs more never ends. -/
def search (attr : Nat) (mem : Bytes) (p e : Nat) : Except Fault (Option (Nat × Nat)) :=
  (findattr (e - p + 1) attr mem p e).getD (.error .endlessLoop)

theorem search_of_findattr {attr p e fuel : Nat} {mem : Bytes}
    {r : Except Fault (Option (Nat × Nat))} (h : findattr fuel attr mem p e = some r) :
    search attr mem p e = r := by
  rw [search, findattr_adequate h (Nat.lt_succ_self (e - p)), Option.getD_some]

theorem drop_take_header {p e : Nat} {mem : Bytes} (he : e ≤ mem.length) (hp : p + 4 ≤ e) :
    ∃ l0 l1 t0 t1 rest, (mem.take e).drop p = l0 :: l1 :: t0 :: t1 :: rest ∧
      rest.length + 4 = e - p := by
  have hlen : ((mem.take e).drop p).length = e - p := by
    rw [List.length_drop, List.length_take]
    omega
  match hcut : (mem.take e).drop p with
  | l0 :: l1 :: t0 :: t1 :: rest =>
    rw [hcut] at hlen
    exact ⟨l0, l1, t0, t1, rest, rfl, by simpa using hlen⟩
  | [] | [_] | [_, _] | [_, _, _] =>
    rw [hcut] at hlen
    simp only [List.length_cons, List.length_nil] at hlen
    omega

theorem drop_eq_append {p e : Nat} {mem : Bytes} (hp : p ≤ e) (he : e ≤ mem.length) :
    mem.drop p = (mem.take e).drop p ++ mem.drop e := by
  have hlen : p ≤ (mem.take e).length := by
    rw [List.length_take]
    omega
  rw [← List.drop_append_of_le_length hlen, List.take_append_drop]

theorem findattrSafe_exit {attr p e : Nat} {mem : Bytes} {found : Option (Nat × Nat)}
    (hbody : findattrBody attr mem e p = .inr (.ok found)) (hp : p < e → p + 4 ≤ e)
    (hfound : ∀ q len, found = some (q, len) → p ≤ q ∧ q + len ≤ e) :
    FindattrSafe attr mem p e := by
  refine ⟨⟨1, found, WhileLoop.run_exit hbody 0, hfound⟩, ?_⟩
  intro n q hq hlt
  cases n with
  | zero => cases hq
  | succ n =>
    rw [WhileLoop.trace_exit hbody, List.mem_singleton] at hq
    rw [hq] at hlt ⊢
    exact hp hlt

theorem findattrSafe_next {attr p p' e : Nat} {mem : Bytes}
    (hbody : findattrBody attr mem e p = .inl p') (hp : p + 4 ≤ e) (hle : p ≤ p')
    (h : FindattrSafe attr mem p' e) : FindattrSafe attr mem p e := by
  obtain ⟨⟨fuel, found, hrun, hslice⟩, hheads⟩ := h
  refine ⟨⟨fuel + 1, found, (WhileLoop.run_next hbody fuel).trans hrun, ?_⟩, ?_⟩
  · intro q len hfound
    obtain ⟨hq, hend⟩ := hslice q len hfound
    exact ⟨Nat.le_trans hle hq, hend⟩
  · intro n q hq hlt
    cases n with
    | zero => cases hq
    | succ n =>
      rw [WhileLoop.trace_next hbody, List.mem_cons] at hq
      rcases hq with rfl | hq
      · exact hp
      · exact hheads n q hq hlt

theorem Walkable.findattrSafe {attr p e : Nat} {mem : Bytes} (he : e ≤ mem.length)
    (h : Walkable attr ((mem.take e).drop p)) : FindattrSafe attr mem p e := by
  generalize hcut : (mem.take e).drop p = cut at h
  have hlen : cut.length = e - p := by
    rw [← hcut, List.length_drop, List.length_take]
    omega
  induction h generalizing p with
  | nil =>
    have hp : e ≤ p := Nat.le_of_sub_eq_zero hlen.symm
    apply findattrSafe_exit (findattrBody_end attr mem hp)
    · omega
    · intro q len hfound
      cases hfound
  | @hit l0 l1 t0 t1 rest htype hmin hfit =>
    simp only [List.length_cons] at hlen
    have hmem := drop_eq_append (by omega : p ≤ e) he
    rw [hcut] at hmem
    have hval := attrLen_of_le hmin (word16_lt l0 l1)
    apply findattrSafe_exit (findattrBody_hit (by omega : p < e) hmem htype)
    · omega
    · intro q len hfound
      obtain ⟨rfl, rfl⟩ := Prod.mk.inj (Option.some.inj hfound)
      omega
  | @next l0 l1 t0 t1 rest htype hne hrest ih =>
    simp only [List.length_cons] at hlen
    have hmem := drop_eq_append (by omega : p ≤ e) he
    rw [hcut] at hmem
    have hdrop : (mem.take e).drop (p + align (word16 l0 l1)) =
        (l0 :: l1 :: t0 :: t1 :: rest).drop (align (word16 l0 l1)) := by
      rw [← List.drop_drop, hcut]
    have hlen' : ((l0 :: l1 :: t0 :: t1 :: rest).drop (align (word16 l0 l1))).length =
        e - (p + align (word16 l0 l1)) := by
      rw [List.length_drop]
      simp only [List.length_cons]
      omega
    apply findattrSafe_next (findattrBody_next (by omega : p < e) hmem htype)
    · omega
    · exact Nat.le_add_right p _
    · exact ih hdrop hlen'

theorem walkable_of_findattrSafe {attr p e : Nat} {mem : Bytes} (he : e ≤ mem.length)
    (hsize : mem.length < 2 ^ 64) (h : FindattrSafe attr mem p e) :
    Walkable attr ((mem.take e).drop p) := by
  obtain ⟨⟨fuel, found, hrun, hslice⟩, hheads⟩ := h
  have hend : ∀ q len, found = some (q, len) → q + len ≤ e := fun q len hq => (hslice q len hq).2
  clear hslice
  -- the run of the loop leads from one header to the next
  induction fuel generalizing p with
  | zero => cases hrun
  | succ fuel ih =>
    by_cases hp : p < e
    · have hhead : p + 4 ≤ e := hheads 1 p (by simp [WhileLoop.trace]) hp
      obtain ⟨l0, l1, t0, t1, rest, hcut, hlen⟩ := drop_take_header he hhead
      have hmem := drop_eq_append (Nat.le_of_lt hp) he
      rw [hcut] at hmem ⊢
      by_cases htype : word16 t0 t1 = attr
      · have hbody := findattrBody_hit hp hmem htype
        rw [findattr, WhileLoop.run_exit hbody] at hrun
        have hbound := hend _ _ (Except.ok.inj (Option.some.inj hrun)).symm
        have hmin : 4 ≤ word16 l0 l1 := by
          by_contra hlt
          have hwrap := attrLen_of_lt (Nat.not_le.mp hlt)
          omega
        rw [attrLen_of_le hmin (word16_lt l0 l1)] at hbound
        exact .hit htype hmin (by omega)
      · have hbody := findattrBody_next hp hmem htype
        rw [findattr, WhileLoop.run_next hbody] at hrun
        have hne : word16 l0 l1 ≠ 0 := by
          intro hzero
          rw [hzero] at hbody hrun
          have hstuck : findattr fuel attr mem p e = none := WhileLoop.run_stuck hbody fuel
          cases hstuck.symm.trans hrun
        have hrest := ih (fun n q hq => hheads (n + 1) q (by
          rw [WhileLoop.trace_next hbody]
          exact List.mem_cons_of_mem p hq)) hrun
        rw [← List.drop_drop, hcut] at hrest
        exact .next htype hne hrest
    · have hnil : (mem.take e).drop p = [] := by
        apply List.drop_of_length_le
        rw [List.length_take]
        omega
      rw [hnil]
      exact .nil

end Slstatus
