import Mathlib.Logic.Relation

/-! Deterministic labelled transition systems. A state has at most one successor
under each label, and a label can be barred by a condition on the state. -/

namespace Transition

variable {σ α : Type*}

/-- `t` is reached from `s` by enabled steps whose labels the condition admits. -/
abbrev Reaches (step : σ → α → Option σ) (ok : σ → α → Prop) : σ → σ → Prop :=
  Relation.ReflTransGen (fun s t => ∃ a, ok s a ∧ step s a = some t)

def exec (step : σ → α → Option σ) : σ → List α → Option σ
  | s, [] => some s
  | s, a :: as => (step s a).bind (fun t => exec step t as)

variable {step : σ → α → Option σ} {ok : σ → α → Prop}

theorem exec_append (s : σ) (as bs : List α) :
    exec step s (as ++ bs) = (exec step s as).bind (fun t => exec step t bs) := by
  induction as generalizing s with
  | nil => rfl
  | cons a as ih =>
    simp only [List.cons_append, exec, Option.bind_assoc]
    exact congrArg _ (funext ih)

theorem Reaches.invariant (inv : σ → Prop) {s t : σ}
    (hstep : ∀ s a t, inv s → ok s a → step s a = some t → inv t)
    (h : Reaches step ok s t) (hs : inv s) : inv t := by
  induction h with
  | refl => exact hs
  | tail _ hlast ih =>
    obtain ⟨a, hok, hnext⟩ := hlast
    exact hstep _ a _ ih hok hnext

theorem reaches_of_exec {as : List α} {s t : σ} (hok : ∀ s a, ok s a)
    (h : exec step s as = some t) : Reaches step ok s t := by
  induction as generalizing s with
  | nil =>
    obtain rfl : s = t := by simpa [exec] using h
    exact .refl
  | cons a as ih =>
    obtain ⟨r, hr, hrest⟩ := Option.bind_eq_some_iff.mp h
    exact .head ⟨a, hok s a, hr⟩ (ih hrest)

/-- A measure that every step lowers bounds the length of every run. -/
theorem exec_measure (rank : σ → Nat) (hstep : ∀ s a t, step s a = some t → rank t < rank s)
    {as : List α} {s t : σ} (h : exec step s as = some t) : as.length + rank t ≤ rank s := by
  induction as generalizing s with
  | nil =>
    obtain rfl : s = t := by simpa [exec] using h
    exact Nat.le_of_eq (Nat.zero_add _)
  | cons a as ih =>
    obtain ⟨r, hr, hrest⟩ := Option.bind_eq_some_iff.mp h
    have hlt := hstep s a r hr
    have hle := ih hrest
    rw [List.length_cons]
    omega

end Transition
