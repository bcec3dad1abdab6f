import Mathlib.Data.List.TakeWhile

/-! The pieces of a list between separators, and `strtok`, which yields them one by one. -/

namespace Tokens

variable {α : Type*} (sep : α → Bool)

/-- The first token, and what lies behind the separator at its end. -/
def strtok (s : List α) : Option (List α × List α) :=
  match s.dropWhile sep with
  | [] => none
  | c :: s => some ((c :: s).takeWhile (fun d => !sep d), ((c :: s).dropWhile (fun d => !sep d)).tail)

def tokens (s : List α) : List (List α) := (s.splitOnP sep).filter (fun t => !t.isEmpty)

variable {sep} {s t token rest : List α} {c : α}

theorem tokens_append_sep (hc : sep c = true) : tokens sep (s ++ c :: t) = tokens sep s ++ tokens sep t := by
  simp only [tokens, List.splitOnP_append_cons _ _ hc, List.filter_append]

theorem tokens_cons_sep (hc : sep c = true) : tokens sep (c :: t) = tokens sep t :=
  tokens_append_sep (s := []) hc

theorem tokens_word (h : ∀ c ∈ s, sep c = false) (hne : s ≠ []) : tokens sep s = [s] := by
  simp [tokens, List.splitOnP_eq_singleton h, hne]

theorem tokens_dropWhile (s : List α) : tokens sep (s.dropWhile sep) = tokens sep s := by
  induction s with
  | nil => rfl
  | cons c s ih =>
    by_cases hc : sep c = true
    · rw [List.dropWhile_cons_of_pos hc, ih, tokens_cons_sep hc]
    · rw [List.dropWhile_cons_of_neg hc]

theorem strtok_eq_none (h : strtok sep s = none) : tokens sep s = [] := by
  unfold strtok at h
  cases hdrop : s.dropWhile sep with
  | nil =>
    rw [← tokens_dropWhile, hdrop]
    rfl
  | cons c t => simp [hdrop] at h

/-- A call takes the first of the tokens and leaves the others. -/
theorem strtok_eq_some (h : strtok sep s = some (token, rest)) :
    token ≠ [] ∧ (∀ c ∈ token, sep c = false) ∧ tokens sep s = token :: tokens sep rest ∧
      rest.length < s.length := by
  unfold strtok at h
  cases hdrop : s.dropWhile sep with
  | nil => simp [hdrop] at h
  | cons c t =>
    simp only [hdrop, Option.some.injEq, Prod.mk.injEq] at h
    obtain ⟨htoken, hrest⟩ := h
    have hc : sep c = false := by
      have hhead := List.head?_dropWhile_not sep s
      simpa [hdrop] using hhead
    have hword : ∀ d ∈ token, sep d = false := by
      intro d hd
      rw [← htoken] at hd
      simpa using List.mem_takeWhile_imp hd
    have hne : token ≠ [] := by
      rw [← htoken]
      simp [hc]
    have hsplit : c :: t = token ++ (c :: t).dropWhile (fun d => !sep d) := by
      rw [← htoken, List.takeWhile_append_dropWhile]
    have hlen : (c :: t).length ≤ s.length := by
      rw [← hdrop]
      exact List.length_dropWhile_le sep s
    refine ⟨hne, hword, ?_⟩
    rw [← tokens_dropWhile, hdrop]
    cases hend : (c :: t).dropWhile (fun d => !sep d) with
    | nil =>
      rw [hend, List.append_nil] at hsplit
      rw [hend] at hrest
      obtain rfl := hrest
      rw [hsplit, tokens_word hword hne]
      exact ⟨rfl, Nat.lt_of_lt_of_le (Nat.succ_pos _) hlen⟩
    | cons d u =>
      rw [hend] at hsplit hrest
      obtain rfl := hrest
      have hd : sep d = true := by
        have hhead := List.head?_dropWhile_not (fun d => !sep d) (c :: t)
        simpa [hend] using hhead
      rw [hsplit, tokens_append_sep hd, tokens_word hword hne]
      refine ⟨rfl, ?_⟩
      have := congrArg List.length hsplit
      simp only [List.length_append, List.length_cons, List.tail_cons] at this hlen ⊢
      omega

theorem mem_tokens (h : token ∈ tokens sep s) : token ≠ [] ∧ ∀ c ∈ token, sep c = false := by
  induction hn : s.length using Nat.strong_induction_on generalizing s with
  | _ n ih =>
    cases hnext : strtok sep s with
    | none =>
      rw [strtok_eq_none hnext] at h
      cases h
    | some r =>
      obtain ⟨first, rest⟩ := r
      obtain ⟨hne, hword, htokens, hlt⟩ := strtok_eq_some hnext
      rw [htokens, List.mem_cons] at h
      rcases h with rfl | hrest
      · exact ⟨hne, hword⟩
      · exact ih rest.length (hn ▸ hlt) hrest rfl

end Tokens
