import Slstatus.Basic
import Slstatus.Lib.Buffer

/-! `strlcat` of util.c on an array of bytes: one loop looks for the end of the string, one
copies, and the terminator goes behind what was copied. -/

namespace Slstatus

/-- `while (n-- != 0 && *d != '\0') d++;` -/
def findEnd (array : Bytes) : Nat → Nat → Except Fault Nat
  | 0, d => .ok d
  | n + 1, d =>
    match array[d]? with
    | none => .error .outOfBounds
    | some c => if c ≠ 0 then findEnd array n (d + 1) else .ok d

/-- `while (*s != '\0') { if (n != 1) { *d++ = *s; n--; } s++; }` -/
def copyLoop {k : Nat} : Bytes → Nat → Nat → Buffer k → Except Fault (Buffer k × Nat)
  | [], _, d, array => .ok (array, d)
  | c :: s, n, d, array =>
    if n ≠ 1 then
      match array.store d c with
      | none => .error .outOfBounds
      | some array => copyLoop s (n - 1) (d + 1) array
    else copyLoop s n d array

def strlcatArray {k : Nat} (dst : Buffer k) (src : Bytes) (siz : Nat) :
    Except Fault (Buffer k × Nat) :=
  match findEnd dst.1 siz 0 with
  | .error f => .error f
  | .ok dlen =>
    let n := siz - dlen
    if n = 0 then .ok (dst, dlen + src.length)
    else
      match copyLoop src n dlen dst with
      | .error f => .error f
      | .ok (dst, d) =>
        match dst.store d 0 with
        | none => .error .outOfBounds
        | some dst => .ok (dst, dlen + src.length)

theorem findEnd_eq {array before s rest : Bytes} {n : Nat}
    (h : array = before ++ (s ++ 0 :: rest)) (hs : 0 ∉ s) (hn : s.length < n) :
    findEnd array n before.length = .ok (before.length + s.length) := by
  induction s generalizing before n with
  | nil =>
    obtain ⟨n, rfl⟩ : ∃ m, n = m + 1 := ⟨n - 1, by omega⟩
    have hget : array[before.length]? = some 0 := by
      rw [h, List.getElem?_append_right (Nat.le_refl _), Nat.sub_self]
      rfl
    simp only [findEnd, hget]
    rfl
  | cons c s ih =>
    obtain ⟨n, rfl⟩ : ∃ m, n = m + 1 := ⟨n - 1, by omega⟩
    have hget : array[before.length]? = some c := by
      rw [h, List.getElem?_append_right (Nat.le_refl _), Nat.sub_self]
      rfl
    have hc : c ≠ 0 := by
      rintro rfl
      exact hs List.mem_cons_self
    have hnext := ih (show array = before ++ [c] ++ (s ++ 0 :: rest) by
        rw [h, List.append_assoc, List.singleton_append, List.cons_append])
      (fun hmem => hs (List.mem_cons_of_mem c hmem)) (Nat.lt_of_succ_lt_succ hn)
    rw [List.length_append, List.length_singleton] at hnext
    simp only [findEnd, hget, if_pos hc]
    rw [hnext, List.length_cons, Nat.add_assoc, Nat.add_comm 1]

theorem store_after {k : Nat} {array : Buffer k} {before rest : Bytes} {x : UInt8} (c : UInt8)
    (h : array.1 = before ++ x :: rest) :
    ∃ array', array.store before.length c = some array' ∧ array'.1 = before ++ c :: rest := by
  have hlen : before.length < k := by
    have hk := array.2
    rw [h, List.length_append, List.length_cons] at hk
    omega
  refine ⟨_, Buffer.store_of_lt hlen, ?_⟩
  show array.1.set before.length c = before ++ c :: rest
  rw [h, List.set_append_right _ _ (Nat.le_refl _), Nat.sub_self, List.set_cons_zero]

/-- What is copied takes the place of as many bytes behind the string, and there is at least
one byte more. -/
theorem copyLoop_eq {k : Nat} {array : Buffer k} {before rest : Bytes} (src : Bytes) {n : Nat}
    (h : array.1 = before ++ rest) (hn : 1 ≤ n) (hroom : n ≤ rest.length) :
    ∃ array', copyLoop src n before.length array =
        .ok (array', before.length + (src.take (n - 1)).length) ∧
      array'.1 = before ++ src.take (n - 1) ++ rest.drop (src.take (n - 1)).length := by
  induction src generalizing array before rest n with
  | nil =>
    refine ⟨array, ?_, ?_⟩
    · rw [copyLoop, List.take_nil]
      rfl
    · rw [List.take_nil, List.append_nil]
      exact h
  | cons c src ih =>
    by_cases hone : n = 1
    · obtain ⟨array', hrun, hval⟩ := ih h hn hroom
      subst hone
      refine ⟨array', ?_, hval⟩
      rw [copyLoop, if_neg (fun hh => hh rfl)]
      exact hrun
    · obtain ⟨x, rest, rfl⟩ := List.exists_cons_of_ne_nil
        (show rest ≠ [] by rintro rfl; simp at hroom; omega)
      obtain ⟨m, rfl⟩ : ∃ m, n = m + 2 := ⟨n - 2, by omega⟩
      obtain ⟨array₁, hstore, hval₁⟩ := store_after c h
      rw [List.length_cons] at hroom
      obtain ⟨array', hrun, hval⟩ := ih (n := m + 1)
        (show array₁.1 = before ++ [c] ++ rest by
          rw [hval₁, List.append_assoc, List.singleton_append]) (by omega) (by omega)
      rw [List.length_append, List.length_singleton] at hrun
      refine ⟨array', ?_, ?_⟩
      · simp only [copyLoop, if_pos hone, hstore]
        show copyLoop src (m + 1) (before.length + 1) array₁ = _
        rw [hrun]
        refine congrArg (fun d => Except.ok (array', d)) ?_
        show _ = before.length + ((c :: src).take (m + 1)).length
        rw [List.take_succ_cons, List.length_cons, Nat.add_sub_cancel]
        omega
      · rw [hval]
        show _ = before ++ (c :: src).take (m + 1) ++ (x :: rest).drop ((c :: src).take (m + 1)).length
        rw [List.take_succ_cons, List.length_cons, List.drop_succ_cons, Nat.add_sub_cancel]
        rw [List.append_assoc before [c], List.singleton_append]

section Spec

variable {k : Nat} {array : Buffer k} {s : Bytes} (h : CString.content array.1 = some s)

include h

/-- The array afterwards, byte by byte: the string, what fits of the source, the terminator,
and behind it what was there. -/
theorem strlcatArray_bytes (src : Bytes) :
    ∃ array', strlcatArray array src k = .ok (array', s.length + src.length) ∧
      array'.1 = s ++ src.take (k - 1 - s.length) ++
        0 :: array.1.drop (s.length + (src.take (k - 1 - s.length)).length + 1) := by
  obtain ⟨hs, rest, hval⟩ := CString.content_eq_some.mp h
  have hk : s.length + (rest.length + 1) = k := by
    rw [← array.2, hval, List.length_append, List.length_cons]
  have hend := findEnd_eq (n := k) (show array.1 = [] ++ (s ++ 0 :: rest) from hval) hs (by omega)
  rw [List.length_nil, Nat.zero_add] at hend
  obtain ⟨array₁, hcopy, hval₁⟩ := copyLoop_eq (n := k - s.length) src hval (by omega)
    (by rw [List.length_cons]; omega)
  have hsub : k - s.length - 1 = k - 1 - s.length := by omega
  rw [hsub] at hcopy hval₁
  have hcopied : (src.take (k - 1 - s.length)).length ≤ rest.length := by
    rw [List.length_take]
    omega
  obtain ⟨x, rest', hrest⟩ := List.exists_cons_of_ne_nil
    (show (0 :: rest).drop (src.take (k - 1 - s.length)).length ≠ [] by
      rw [ne_eq, List.drop_eq_nil_iff, List.length_cons]
      omega)
  rw [hrest] at hval₁
  obtain ⟨array₂, hstore, hval₂⟩ := store_after 0 hval₁
  rw [List.length_append] at hstore
  refine ⟨array₂, ?_, ?_⟩
  · simp only [strlcatArray, hend, if_neg (show ¬ k - s.length = 0 by omega), hcopy, hstore]
  · have hdrop : array.1.drop (s.length + (src.take (k - 1 - s.length)).length + 1) = rest' := by
      rw [hval, Nat.add_assoc, ← List.drop_drop, List.drop_left, ← List.drop_drop, hrest]
      rfl
    rw [hval₂, hdrop]

theorem strlcatArray_content {src : Bytes} (hsrc : 0 ∉ src) :
    ∃ array', strlcatArray array src k = .ok (array', s.length + src.length) ∧
      CString.content array'.1 = some (s ++ src.take (k - 1 - s.length)) := by
  obtain ⟨array', hrun, hval⟩ := strlcatArray_bytes h src
  refine ⟨array', hrun, CString.content_eq_some.mpr ⟨?_, _, hval⟩⟩
  rw [List.mem_append, not_or]
  exact ⟨(CString.content_eq_some.mp h).1, fun hmem => hsrc (List.mem_of_mem_take hmem)⟩

/-- A full array stays as it is, terminator included. -/
theorem strlcatArray_full (hfull : s.length + 1 = k) (src : Bytes) :
    strlcatArray array src k = .ok (array, s.length + src.length) := by
  obtain ⟨array', hrun, hval⟩ := strlcatArray_bytes h src
  obtain ⟨-, rest, harray⟩ := CString.content_eq_some.mp h
  have hzero : k - 1 - s.length = 0 := by omega
  have hsame : array' = array := by
    apply Subtype.ext
    rw [hval, hzero, List.take_zero, List.append_nil, List.length_nil, Nat.add_zero, harray,
      ← List.drop_drop, List.drop_left]
    rfl
  rw [hrun, hsame]

end Spec

end Slstatus
