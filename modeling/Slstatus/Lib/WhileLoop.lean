import Mathlib.Data.Sum.Basic

/-! While loops given by their body. The body either goes on with a new state
or leaves the loop with a value, and a loop that never leaves diverges. -/

namespace WhileLoop

variable {σ α : Type*}

/-- At most `n` iterations; `none` says that the loop is still running. -/
def run (body : σ → σ ⊕ α) : Nat → σ → Option α
  | 0, _ => none
  | n + 1, s =>
    match body s with
    | .inl s' => run body n s'
    | .inr a => some a

/-- The states in which the first `n` iterations begin. -/
def trace (body : σ → σ ⊕ α) : Nat → σ → List σ
  | 0, _ => []
  | n + 1, s => s :: (match body s with | .inl s' => trace body n s' | .inr _ => [])

theorem run_exit {body : σ → σ ⊕ α} {s : σ} {a : α} (h : body s = .inr a) (n : Nat) :
    run body (n + 1) s = some a := by
  simp only [run, h]

theorem run_next {body : σ → σ ⊕ α} {s s' : σ} (h : body s = .inl s') (n : Nat) :
    run body (n + 1) s = run body n s' := by
  simp only [run, h]

theorem run_unique {body : σ → σ ⊕ α} {n m : Nat} {s : σ} {a b : α}
    (hn : run body n s = some a) (hm : run body m s = some b) : a = b := by
  induction n generalizing m s with
  | zero => cases hn
  | succ n ih =>
    cases m with
    | zero => cases hm
    | succ m =>
      cases hbody : body s with
      | inl s' =>
        rw [run_next hbody] at hn hm
        exact ih hn hm
      | inr c =>
        rw [run_exit hbody] at hn hm
        exact Option.some.inj (hn.symm.trans hm)

theorem run_stuck {body : σ → σ ⊕ α} {s : σ} (h : body s = .inl s) (n : Nat) :
    run body n s = none := by
  induction n with
  | zero => rfl
  | succ n ih => rw [run_next h, ih]

theorem run_mono {body : σ → σ ⊕ α} {n m : Nat} {s : σ} {a : α} (h : run body n s = some a)
    (hle : n ≤ m) : run body m s = some a := by
  induction n generalizing m s with
  | zero => cases h
  | succ n ih =>
    obtain ⟨m, rfl⟩ : ∃ k, m = k + 1 := ⟨m - 1, by omega⟩
    cases hbody : body s with
    | inl s' =>
      rw [run_next hbody] at h ⊢
      exact ih h (by omega)
    | inr b =>
      rw [run_exit hbody] at h ⊢
      exact h

/-- A loop that stands still or comes closer to its end with each iteration needs no
more of them than the measure says. -/
theorem run_measure {body : σ → σ ⊕ α} (μ : σ → Nat)
    (hbody : ∀ s s', body s = .inl s' → s' = s ∨ μ s' < μ s) {n : Nat} {s : σ} {a : α}
    (h : run body n s = some a) : run body (μ s + 1) s = some a := by
  induction n generalizing s with
  | zero => cases h
  | succ n ih =>
    cases hs : body s with
    | inl s' =>
      rcases hbody s s' hs with rfl | hlt
      · rw [run_stuck hs] at h
        cases h
      · rw [run_next hs] at h ⊢
        exact run_mono (ih h) hlt
    | inr b =>
      rw [run_exit hs] at h ⊢
      exact h

theorem trace_one (body : σ → σ ⊕ α) (s : σ) : trace body 1 s = [s] := by
  cases h : body s with
  | inl s' => simp only [trace, h]
  | inr a => simp only [trace, h]

theorem trace_exit {body : σ → σ ⊕ α} {s : σ} {a : α} (h : body s = .inr a) (n : Nat) :
    trace body (n + 1) s = [s] := by
  simp only [trace, h]

theorem trace_next {body : σ → σ ⊕ α} {s s' : σ} (h : body s = .inl s') (n : Nat) :
    trace body (n + 1) s = s :: trace body n s' := by
  simp only [trace, h]

theorem trace_not_stuck {body : σ → σ ⊕ α} {n m : Nat} {s t : σ} {a : α}
    (h : run body n s = some a) (ht : t ∈ trace body m s) : body t ≠ .inl t := by
  induction m generalizing n s with
  | zero => cases ht
  | succ m ih =>
    cases n with
    | zero => cases h
    | succ n =>
      have hstill : body s ≠ .inl s := by
        intro hs
        rw [run_stuck hs] at h
        cases h
      cases hs : body s with
      | inl s' =>
        rw [run_next hs] at h
        rw [trace_next hs, List.mem_cons] at ht
        rcases ht with rfl | ht
        · exact hstill
        · exact ih h ht
      | inr b =>
        rw [trace_exit hs, List.mem_singleton] at ht
        rw [ht]
        exact hstill

end WhileLoop
