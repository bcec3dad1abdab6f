import Slstatus.Strlcat

/-! `strlcpy` of util.c on an array of bytes, and what `strlcat` makes of its result. -/

namespace Slstatus

/-- `while (--nleft != 0) { if ((*dst++ = *src++) == '\0') break; }`, from a decremented `nleft` on;
behind the loop a terminator is stored where no byte is left. -/
def strlcpyLoop {k : Nat} : Nat → Bytes → Nat → Buffer k → Except Fault (Buffer k)
  | 0, _, d, array =>
    match array.store d 0 with
    | none => .error .outOfBounds
    | some array => .ok array
  | nleft + 1, src, d, array =>
    match array.store d (src.head?.getD 0) with
    | none => .error .outOfBounds
    | some array =>
      match src with
      | [] => .ok array
      | _ :: src => strlcpyLoop nleft src (d + 1) array

/-- Either way the end of the source has been found. -/
def strlcpyArray {k : Nat} (dst : Buffer k) (src : Bytes) (dsize : Nat) :
    Except Fault (Buffer k × Nat) :=
  if dsize = 0 then .ok (dst, src.length)
  else (strlcpyLoop (dsize - 1) src 0 dst).map (·, src.length)

section Loop

variable {k : Nat} {array : Buffer k} {before rest : Bytes}

/-- The loop stores what fits of the source, and a terminator. -/
theorem strlcpyLoop_eq (src : Bytes) (nleft : Nat) (h : array.1 = before ++ rest)
    (hroom : min src.length nleft < rest.length) :
    ∃ array', strlcpyLoop nleft src before.length array = .ok array' ∧
      array'.1 = before ++ src.take nleft ++ 0 :: rest.drop (min src.length nleft + 1) := by
  induction nleft generalizing src array before rest with
  | zero =>
    obtain ⟨x, rest, rfl⟩ := List.exists_cons_of_ne_nil
      (show rest ≠ [] by rintro rfl; simp at hroom)
    obtain ⟨array', hstore, hval⟩ := store_after 0 h
    refine ⟨array', by simp only [strlcpyLoop, hstore], ?_⟩
    rw [hval]
    simp
  | succ nleft ih =>
    obtain ⟨x, rest, rfl⟩ := List.exists_cons_of_ne_nil
      (show rest ≠ [] by rintro rfl; simp at hroom)
    obtain ⟨array₁, hstore, hval⟩ := store_after (src.head?.getD 0) h
    cases src with
    | nil => exact ⟨array₁, by simp only [strlcpyLoop, hstore], by simpa using hval⟩
    | cons c src =>
      rw [List.length_cons, List.length_cons] at hroom
      have hval₁ : array₁.1 = (before ++ [c]) ++ rest := by simpa using hval
      obtain ⟨array', hrun, hval'⟩ := ih src hval₁ (by omega)
      have hmin : min (src.length + 1) (nleft + 1) = min src.length nleft + 1 := by omega
      rw [List.length_append, List.length_singleton] at hrun
      refine ⟨array', by simp only [strlcpyLoop, hstore, hrun], ?_⟩
      rw [hval', List.length_cons, hmin]
      simp

theorem strlcpyLoop_outside (src : Bytes) (nleft : Nat) (d : Nat) (array : Buffer k)
    (h : k ≤ d + min src.length nleft) : strlcpyLoop nleft src d array = .error .outOfBounds := by
  induction nleft generalizing src d array with
  | zero =>
    have hout : array.store d 0 = none := if_neg (by omega)
    simp only [strlcpyLoop, hout]
  | succ nleft ih =>
    cases hstore : array.store d (src.head?.getD 0) with
    | none => simp only [strlcpyLoop, hstore]
    | some array₁ =>
      have hd : d < k := by
        by_contra hd
        rw [Buffer.store, if_neg hd] at hstore
        cases hstore
      cases src with
      | nil => simp at h; omega
      | cons c src =>
        simp only [strlcpyLoop, hstore]
        rw [List.length_cons] at h
        exact ih src (d + 1) array₁ (by omega)

end Loop

section Spec

variable {k : Nat} (array : Buffer k)

/-- The array afterwards, byte by byte. -/
theorem strlcpyArray_bytes {src : Bytes} {dsize : Nat} (hpos : 0 < dsize)
    (hroom : min src.length (dsize - 1) < k) :
    ∃ array', strlcpyArray array src dsize = .ok (array', src.length) ∧
      array'.1 = src.take (dsize - 1) ++ 0 :: array.1.drop (min src.length (dsize - 1) + 1) := by
  have hwhole : array.1 = [] ++ array.1 := rfl
  obtain ⟨array', hrun, hval⟩ := strlcpyLoop_eq src (dsize - 1) hwhole
    (by rw [array.2]; exact hroom)
  refine ⟨array', ?_, by simpa using hval⟩
  rw [strlcpyArray, if_neg (by omega), show strlcpyLoop (dsize - 1) src 0 array = _ from hrun]
  rfl

/-- Nothing is stored outside the array exactly if it has room for what is copied. -/
theorem strlcpyArray_ok_iff {src : Bytes} {dsize : Nat} :
    (∃ out, strlcpyArray array src dsize = .ok out) ↔
      dsize = 0 ∨ min src.length (dsize - 1) < k := by
  rcases Nat.eq_zero_or_pos dsize with rfl | hpos
  · exact iff_of_true ⟨_, rfl⟩ (.inl rfl)
  · by_cases hroom : min src.length (dsize - 1) < k
    · obtain ⟨array', hrun, -⟩ := strlcpyArray_bytes array hpos hroom
      exact iff_of_true ⟨_, hrun⟩ (.inr hroom)
    · refine iff_of_false ?_ (by omega)
      rintro ⟨out, hout⟩
      rw [strlcpyArray, if_neg (by omega),
        strlcpyLoop_outside src (dsize - 1) 0 array (by omega)] at hout
      cases hout

theorem drop_terminated {s rest : Bytes} {n : Nat} (h : s.length = n) :
    (s ++ 0 :: rest).drop (n + 1) = rest := by
  rw [← h, ← List.drop_drop, List.drop_left]
  rfl

end Spec

/-- `strlcpy` and then `strlcat` with the size of the array: it holds both texts one behind the
other, cut where the array ends, whatever it held before, and nothing is stored behind their end.
With another size `strlcpy` stores outside exactly if what it copies has no room. -/
theorem strlcpy_strlcat {k : Nat} (array : Buffer k) (hk : 0 < k) {a b : Bytes} (ha : 0 ∉ a)
    (hb : 0 ∉ b) :
    (∃ array₁ array₂, strlcpyArray array a k = .ok (array₁, a.length) ∧
      strlcatArray array₁ b k = .ok (array₂, min a.length (k - 1) + b.length) ∧
      CString.content array₂.1 = some ((a ++ b).take (k - 1)) ∧
      array₂.1.drop (min (a.length + b.length) (k - 1) + 1) =
        array.1.drop (min (a.length + b.length) (k - 1) + 1)) ∧
    ∀ dsize, (∃ out, strlcpyArray array a dsize = .ok out) ↔
      dsize = 0 ∨ min a.length (dsize - 1) < k := by
  refine ⟨?_, fun dsize => strlcpyArray_ok_iff array⟩
  have ha' : 0 ∉ a.take (k - 1) := fun h => ha (List.mem_of_mem_take h)
  have hlen : (a.take (k - 1)).length = min a.length (k - 1) := by
    rw [List.length_take, Nat.min_comm]
  obtain ⟨array₁, hcpy, hval₁⟩ := strlcpyArray_bytes array hk
    (show min a.length (k - 1) < k by omega)
  have hcontent : CString.content array₁.1 = some (a.take (k - 1)) :=
    CString.content_eq_some.mpr ⟨ha', _, hval₁⟩
  obtain ⟨array₂, hcat, hval₂⟩ := strlcatArray_bytes hcontent b
  have htext : a.take (k - 1) ++ b.take (k - 1 - (a.take (k - 1)).length) = (a ++ b).take (k - 1) := by
    have hrest : k - 1 - (a.take (k - 1)).length = k - 1 - a.length := by omega
    rw [List.take_append, hrest]
  have hboth : ((a ++ b).take (k - 1)).length = min (a.length + b.length) (k - 1) := by
    rw [List.length_take, List.length_append, Nat.min_comm]
  rw [hlen] at hcat
  rw [htext] at hval₂
  refine ⟨array₁, array₂, hcpy, hcat, CString.content_eq_some.mpr ⟨?_, _, hval₂⟩, ?_⟩
  · intro h
    rcases List.mem_append.mp (List.mem_of_mem_take h) with h | h
    · exact ha h
    · exact hb h
  · have hend : (a.take (k - 1)).length + (b.take (k - 1 - (a.take (k - 1)).length)).length =
        min (a.length + b.length) (k - 1) := by
      rw [← List.length_append, htext, hboth]
    rw [hend] at hval₂
    rw [hval₂, drop_terminated hboth, hval₁]
    have hle : min a.length (k - 1) ≤ min (a.length + b.length) (k - 1) := by omega
    obtain ⟨j, hj⟩ := Nat.exists_eq_add_of_le hle
    rw [hj, Nat.add_right_comm, ← List.drop_drop, drop_terminated hlen, List.drop_drop]

theorem strlcpy_strlcat_cut :
    ∃ array₁ array₂ : Buffer 4,
      strlcpyArray (Buffer.zeros 4) [97, 98] 4 = .ok (array₁, 2) ∧
      strlcatArray array₁ [99, 100] 4 = .ok (array₂, 4) ∧
      CString.content array₂.1 = some [97, 98, 99] := by
  obtain ⟨array₁, array₂, hcpy, hcat, hcontent, -⟩ := (strlcpy_strlcat (Buffer.zeros 4) (by decide)
    (show (0 : UInt8) ∉ [97, 98] by decide) (show (0 : UInt8) ∉ [99, 100] by decide)).1
  exact ⟨array₁, array₂, hcpy, hcat, hcontent⟩

end Slstatus
