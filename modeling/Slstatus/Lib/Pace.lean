import Mathlib.Tactic.Ring

/-! A time that is taken in every round. What one round lasts at most, or at least, bounds what
several rounds last. -/

namespace Pace

variable {s : Nat → Nat} {p t d : Nat}

theorem le_add (h : ∀ u, t ≤ u → u < t + d → s (u + 1) ≤ s u + p) : s (t + d) ≤ s t + d * p := by
  induction d with
  | zero => exact Nat.le_add_right _ _
  | succ d ih =>
    have hbefore := ih (fun u hu hlt => h u hu (Nat.lt_succ_of_lt hlt))
    have hround := h (t + d) (Nat.le_add_right t d) (Nat.lt_succ_self _)
    calc s (t + (d + 1)) ≤ s (t + d) + p := hround
      _ ≤ s t + d * p + p := Nat.add_le_add_right hbefore p
      _ = s t + (d + 1) * p := by ring

theorem add_le (h : ∀ u, t ≤ u → u < t + d → s u + p ≤ s (u + 1)) : s t + d * p ≤ s (t + d) := by
  induction d with
  | zero => exact Nat.le_of_eq (by rw [Nat.zero_mul]; rfl)
  | succ d ih =>
    have hbefore := ih (fun u hu hlt => h u hu (Nat.lt_succ_of_lt hlt))
    have hround := h (t + d) (Nat.le_add_right t d) (Nat.lt_succ_self _)
    calc s t + (d + 1) * p = s t + d * p + p := by ring
      _ ≤ s (t + d) + p := Nat.add_le_add_right hbefore p
      _ ≤ s (t + (d + 1)) := hround

end Pace
