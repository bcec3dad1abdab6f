import Mathlib.Logic.Function.Basic

/-! Keyed registers that are written one after the other. Each keeps what was written to it
last. -/

namespace Registers

variable {κ ν : Type} [DecidableEq κ]

def replay (b : κ → ν) (ws : List (κ × ν)) : κ → ν :=
  ws.foldl (fun b w => Function.update b w.1 w.2) b

variable {b : κ → ν} {ws later : List (κ × ν)} {k : κ}

theorem replay_append (b : κ → ν) (ws ws' : List (κ × ν)) :
    replay b (ws ++ ws') = replay (replay b ws) ws' := List.foldl_append

theorem replay_unwritten (h : ∀ w ∈ ws, w.1 ≠ k) : replay b ws k = b k := by
  induction ws generalizing b with
  | nil => rfl
  | cons w ws ih =>
    have hrest := ih (b := Function.update b w.1 w.2) (fun x hx => h x (List.mem_cons_of_mem w hx))
    exact hrest.trans (Function.update_of_ne (h w List.mem_cons_self).symm _ _)

theorem replay_last (ws : List (κ × ν)) (v : ν) (h : ∀ w ∈ later, w.1 ≠ k) :
    replay b (ws ++ (k, v) :: later) k = v := by
  rw [replay_append]
  have hlater : replay (replay b ws) ((k, v) :: later) k = Function.update (replay b ws) k v k :=
    replay_unwritten h
  rw [hlater, Function.update_self]

end Registers
