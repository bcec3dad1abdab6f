import Mathlib.Data.List.Basic

/-! The lines of a text, each with its line break. Only the last line can lack one. -/

namespace Lines

def getLines : List UInt8 → List (List UInt8)
  | [] => []
  | c :: s =>
    if c = 10 then [10] :: getLines s
    else
      match getLines s with
      | [] => [[c]]
      | line :: rest => (c :: line) :: rest

/-- The pieces that reads of at most `size` bytes get, each up to its line break; `left` is
what the first of them may still take. -/
def fgetsLines (size : Nat) : Nat → List UInt8 → List (List UInt8)
  | _, [] => []
  | left, c :: s =>
    if c = 10 ∨ left ≤ 1 then [c] :: fgetsLines size size s
    else
      match fgetsLines size (left - 1) s with
      | [] => [[c]]
      | line :: rest => (c :: line) :: rest

/-- What one read of at most `left` bytes gets. -/
def firstPiece : Nat → List UInt8 → List UInt8
  | _, [] => []
  | left, c :: s => if c = 10 ∨ left ≤ 1 then [c] else c :: firstPiece (left - 1) s

/-- The pieces that one line is read in. -/
def chunks (size : Nat) : Nat → List UInt8 → List (List UInt8)
  | _, [] => []
  | left, c :: s =>
    if left ≤ 1 then [c] :: chunks size size s
    else
      match chunks size (left - 1) s with
      | [] => [[c]]
      | piece :: rest => (c :: piece) :: rest

def Terminated (line : List UInt8) : Prop := line.getLast? = some 10

instance (line : List UInt8) : Decidable (Terminated line) :=
  inferInstanceAs (Decidable (_ = _))

theorem ne_nil_of_mem_getLines {s line : List UInt8} (h : line ∈ getLines s) : line ≠ [] := by
  induction s generalizing line with
  | nil => cases h
  | cons c s ih =>
    by_cases hc : c = 10
    · rw [getLines, if_pos hc, List.mem_cons] at h
      rcases h with rfl | hrest
      · exact List.cons_ne_nil 10 []
      · exact ih hrest
    · cases hs : getLines s with
      | nil =>
        simp only [getLines, hc, hs, if_false, List.mem_singleton] at h
        exact h ▸ List.cons_ne_nil c []
      | cons first rest =>
        simp only [getLines, hc, hs, if_false, List.mem_cons] at h
        rcases h with rfl | hrest
        · exact List.cons_ne_nil c first
        · exact ih (hs ▸ List.mem_cons_of_mem first hrest)

theorem terminated_of_mem_dropLast {s line : List UInt8} (h : line ∈ (getLines s).dropLast) :
    Terminated line := by
  induction s generalizing line with
  | nil => cases h
  | cons c s ih =>
    by_cases hc : c = 10
    · rw [getLines, if_pos hc] at h
      cases hs : getLines s with
      | nil =>
        rw [hs] at h
        cases h
      | cons first rest =>
        rw [hs, List.dropLast_cons_cons, List.mem_cons] at h
        rcases h with rfl | hrest
        · rfl
        · exact ih (hs ▸ hrest)
    · cases hs : getLines s with
      | nil =>
        simp only [getLines, hc, hs, if_false] at h
        cases h
      | cons first rest =>
        simp only [getLines, hc, hs, if_false] at h
        cases rest with
        | nil => cases h
        | cons second rest =>
          rw [List.dropLast_cons_cons, List.mem_cons] at h
          rcases h with rfl | hrest
          · have hfirst : Terminated first := ih (by simp [hs])
            have hne : first ≠ [] := ne_nil_of_mem_getLines (s := s) (by simp [hs])
            obtain ⟨d, first, rfl⟩ := List.exists_cons_of_ne_nil hne
            rwa [Terminated, List.getLast?_cons_cons]
          · exact ih (by rw [hs, List.dropLast_cons_cons]; exact List.mem_cons_of_mem first hrest)

section Fgets

variable {size left : Nat} {line rest : List UInt8}

theorem head_fgetsLines_terminated (hline : 10 ∉ line) (h : line.length < left) :
    (fgetsLines size left (line ++ 10 :: rest)).head? = some (line ++ [10]) := by
  induction line generalizing left with
  | nil => simp [fgetsLines]
  | cons c line ih =>
    obtain ⟨hc, hline⟩ : 10 ≠ c ∧ 10 ∉ line := by simpa using hline
    have hlen : line.length + 1 < left := h
    have hfirst := ih hline (show line.length < left - 1 by omega)
    have hlong : ¬ (c = 10 ∨ left ≤ 1) := not_or.mpr ⟨fun he => hc he.symm, by omega⟩
    rw [List.cons_append, fgetsLines, if_neg hlong]
    cases hmore : fgetsLines size (left - 1) (line ++ 10 :: rest) with
    | nil => simp [hmore] at hfirst
    | cons first more =>
      obtain rfl : first = line ++ [10] := by simpa [hmore] using hfirst
      rfl

theorem head_fgetsLines_all (hline : 10 ∉ line) (hne : line ≠ []) (h : line.length ≤ left) :
    (fgetsLines size left line).head? = some line := by
  induction line generalizing left with
  | nil => exact absurd rfl hne
  | cons c line ih =>
    obtain ⟨hc, hline⟩ : 10 ≠ c ∧ 10 ∉ line := by simpa using hline
    have hlen : line.length + 1 ≤ left := h
    cases line with
    | nil =>
      rw [fgetsLines]
      split_ifs <;> rfl
    | cons d line =>
      have hfirst := ih hline (List.cons_ne_nil d line) (show (d :: line).length ≤ left - 1 by omega)
      have hlong : ¬ (c = 10 ∨ left ≤ 1) := by
        rw [List.length_cons] at hlen
        exact not_or.mpr ⟨fun he => hc he.symm, by omega⟩
      rw [fgetsLines, if_neg hlong]
      cases hmore : fgetsLines size (left - 1) (d :: line) with
      | nil => simp [hmore] at hfirst
      | cons first more =>
        obtain rfl : first = d :: line := by simpa [hmore] using hfirst
        rfl

end Fgets

section Pieces

variable {size left : Nat} {s line piece : List UInt8}

theorem fgetsLines_cons (hs : s ≠ []) :
    fgetsLines size left s =
      firstPiece left s :: fgetsLines size size (s.drop (firstPiece left s).length) := by
  induction s generalizing left with
  | nil => exact absurd rfl hs
  | cons c s ih =>
    by_cases hend : c = 10 ∨ left ≤ 1
    · rw [fgetsLines, if_pos hend, firstPiece, if_pos hend]
      rfl
    · rw [fgetsLines, if_neg hend, firstPiece, if_neg hend]
      cases s with
      | nil => rfl
      | cons d s =>
        rw [ih (List.cons_ne_nil d s)]
        rfl

theorem firstPiece_ne_nil (left : Nat) (hs : s ≠ []) : firstPiece left s ≠ [] := by
  cases s with
  | nil => exact absurd rfl hs
  | cons c s =>
    rw [firstPiece]
    split_ifs <;> exact List.cons_ne_nil _ _

theorem firstPiece_append (left : Nat) (s : List UInt8) :
    firstPiece left s ++ s.drop (firstPiece left s).length = s := by
  induction s generalizing left with
  | nil => rfl
  | cons c s ih =>
    rw [firstPiece]
    split_ifs
    · rfl
    · exact congrArg (c :: ·) (ih (left - 1))

theorem not_mem_dropLast (h : line ∈ getLines s) : 10 ∉ line.dropLast := by
  induction s generalizing line with
  | nil => cases h
  | cons c s ih =>
    by_cases hc : c = 10
    · rw [getLines, if_pos hc, List.mem_cons] at h
      rcases h with rfl | hrest
      · exact List.not_mem_nil
      · exact ih hrest
    · cases hs : getLines s with
      | nil =>
        simp only [getLines, hc, hs, if_false, List.mem_singleton] at h
        rw [h]
        exact List.not_mem_nil
      | cons first rest =>
        simp only [getLines, hc, hs, if_false, List.mem_cons] at h
        rcases h with rfl | hrest
        · obtain ⟨d, first, rfl⟩ := List.exists_cons_of_ne_nil
            (ne_nil_of_mem_getLines (hs ▸ List.mem_cons_self))
          rw [List.dropLast_cons_cons, List.mem_cons, not_or]
          exact ⟨fun he => hc he.symm, ih (hs ▸ List.mem_cons_self)⟩
        · exact ih (hs ▸ List.mem_cons_of_mem first hrest)

theorem chunks_cons (hs : s ≠ []) (hleft : 1 ≤ left) :
    chunks size left s = s.take left :: chunks size size (s.drop left) := by
  induction s generalizing left with
  | nil => exact absurd rfl hs
  | cons c s ih =>
    by_cases hone : left ≤ 1
    · obtain rfl : left = 1 := by omega
      rw [chunks, if_pos hone]
      rfl
    · obtain ⟨m, rfl⟩ : ∃ m, left = m + 2 := ⟨left - 2, by omega⟩
      rw [chunks, if_neg hone, List.take_succ_cons, List.drop_succ_cons]
      cases s with
      | nil => rfl
      | cons d s => rw [show m + 2 - 1 = m + 1 from rfl, ih (List.cons_ne_nil d s) (by omega)]

theorem flatten_chunks (hsize : 1 ≤ size) (s : List UInt8) : (chunks size size s).flatten = s := by
  induction h : s.length using Nat.strongRecOn generalizing s with
  | _ n ih =>
    by_cases hs : s = []
    · rw [hs]
      rfl
    · have hpos := List.length_pos_iff.mpr hs
      rw [chunks_cons hs hsize, List.flatten_cons,
        ih (s.drop size).length (by rw [List.length_drop]; omega) _ rfl, List.take_append_drop]

theorem mem_chunks (hsize : 1 ≤ size) :
    piece ∈ chunks size size s ↔
      ∃ k, size * k < s.length ∧ piece = (s.drop (size * k)).take size := by
  induction h : s.length using Nat.strongRecOn generalizing s with
  | _ n ih =>
    by_cases hs : s = []
    · subst hs
      subst h
      simp [chunks]
    · have hpos := List.length_pos_iff.mpr hs
      have hrest := ih (s.drop size).length (by rw [List.length_drop]; omega) rfl
      rw [chunks_cons hs hsize, List.mem_cons, hrest]
      constructor
      · rintro (rfl | ⟨k, hk, rfl⟩)
        · exact ⟨0, by omega, by rw [Nat.mul_zero, List.drop_zero]⟩
        · rw [List.length_drop] at hk
          refine ⟨k + 1, by rw [Nat.mul_succ]; omega, ?_⟩
          rw [List.drop_drop, Nat.mul_succ, Nat.add_comm]
      · rintro ⟨k, hk, rfl⟩
        cases k with
        | zero => exact .inl (by rw [Nat.mul_zero, List.drop_zero])
        | succ k =>
          rw [Nat.mul_succ] at hk
          refine .inr ⟨k, by rw [List.length_drop]; omega, ?_⟩
          rw [List.drop_drop, Nat.mul_succ, Nat.add_comm]

/-- Reading with a limit cuts the lines into pieces and no piece runs from one line into
the next. -/
theorem fgetsLines_eq (size left : Nat) (s : List UInt8) :
    fgetsLines size left s =
      match getLines s with
      | [] => []
      | line :: rest => chunks size left line ++ rest.flatMap (chunks size size) := by
  induction s generalizing left with
  | nil => rfl
  | cons c s ih =>
    have hfresh : fgetsLines size size s = (getLines s).flatMap (chunks size size) := by
      rw [ih]
      cases getLines s <;> rfl
    by_cases hc : c = 10
    · subst hc
      have hone : chunks size left [10] = [[10]] := by
        rw [chunks]
        split_ifs <;> rfl
      simp only [fgetsLines, getLines, true_or, if_true, hone, hfresh, List.singleton_append]
    · by_cases hone : left ≤ 1
      · rw [fgetsLines, if_pos (.inr hone), hfresh, getLines, if_neg hc]
        cases getLines s with
        | nil => simp [chunks, hone]
        | cons first rest => simp [chunks, hone]
      · rw [fgetsLines, if_neg (not_or.mpr ⟨hc, hone⟩), ih, getLines, if_neg hc]
        cases hs : getLines s with
        | nil => simp [chunks, hone]
        | cons first rest =>
          have hfirst : first ≠ [] := ne_nil_of_mem_getLines (s := s) (by simp [hs])
          simp only [chunks, if_neg hone]
          rw [chunks_cons hfirst (by omega : 1 ≤ left - 1)]
          rfl

theorem fgetsLines_flatMap (size : Nat) (s : List UInt8) :
    fgetsLines size size s = (getLines s).flatMap (chunks size size) := by
  rw [fgetsLines_eq]
  cases getLines s <;> rfl

end Pieces

end Lines
