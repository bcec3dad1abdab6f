import Mathlib.Algebra.BigOperators.Group.List.Basic
import Mathlib.Algebra.Order.Group.Nat
import Mathlib.Tactic.Ring

/-! Windows on a cyclic sequence. Positions are integers taken modulo the length of
the cycle, so that a window can start before it and wrap around any number of times. -/

namespace Window

variable {α : Type*} {cycle : List α}

def entry (cycle : List α) (k : Int) : Option α := cycle[(k % cycle.length).toNat]?

def window (cycle : List α) (k : Int) (m : Nat) : List α :=
  (List.range m).filterMap (fun j : Nat => entry cycle (k + j))

theorem length_pos (h : cycle ≠ []) : 0 < (cycle.length : Int) := by
  have := List.length_pos_iff.mpr h
  omega

theorem exists_entry (h : cycle ≠ []) (k : Int) : ∃ c ∈ cycle, entry cycle k = some c := by
  have hpos := length_pos h
  have hnonneg := Int.emod_nonneg k (ne_of_gt hpos)
  have hlt := Int.emod_lt_of_pos k hpos
  have hindex : (k % cycle.length).toNat < cycle.length := by omega
  exact ⟨cycle[(k % cycle.length).toNat], List.getElem_mem hindex, List.getElem?_eq_getElem hindex⟩

theorem entry_mod (k : Int) : entry cycle (k % cycle.length) = entry cycle k := by
  simp only [entry, Int.emod_emod]

theorem entry_of_lt {i : Nat} (h : i < cycle.length) : entry cycle i = cycle[i]? := by
  rw [entry, Int.emod_eq_of_lt (by omega) (by omega), Int.toNat_natCast]

theorem window_zero (k : Int) : window cycle k 0 = [] := rfl

theorem window_succ (k : Int) (m : Nat) :
    window cycle k (m + 1) = (entry cycle k).toList ++ window cycle (k + 1) m := by
  have hshift : ∀ j : Nat, k + ((j + 1 : Nat) : Int) = k + 1 + j := fun j => by omega
  simp only [window, List.range_succ_eq_map, List.filterMap_cons, List.filterMap_map,
    Function.comp_def, Nat.succ_eq_add_one, hshift, Nat.cast_zero, Int.add_zero]
  cases entry cycle k with
  | none => rfl
  | some c => rfl

theorem window_congr {k k' : Int} (h : ∀ j : Nat, entry cycle (k + j) = entry cycle (k' + j))
    (m : Nat) : window cycle k m = window cycle k' m := by
  simp only [window, h]

theorem window_mod (k : Int) (m : Nat) :
    window cycle (k % cycle.length) m = window cycle k m := by
  refine window_congr (fun j => ?_) m
  rw [← entry_mod (k + j), ← entry_mod (k % cycle.length + j), Int.emod_add_emod]

theorem window_add_length (k : Int) (m : Nat) :
    window cycle (k + cycle.length) m = window cycle k m := by
  rw [← window_mod (k + cycle.length), Int.add_emod_right, window_mod]

theorem window_append (k : Int) (m m' : Nat) :
    window cycle k (m + m') = window cycle k m ++ window cycle (k + m) m' := by
  induction m generalizing k with
  | zero => simp [window_zero]
  | succ m ih =>
    have hk : k + 1 + (m : Int) = k + ((m + 1 : Nat) : Int) := by omega
    rw [show m + 1 + m' = m + m' + 1 by omega, window_succ, window_succ, ih, hk, List.append_assoc]

theorem window_tail (h : cycle ≠ []) (k : Int) (m : Nat) :
    (window cycle k (m + 1)).tail = window cycle (k + 1) m := by
  obtain ⟨c, -, hc⟩ := exists_entry h k
  simp only [window_succ, hc, Option.toList_some, List.singleton_append, List.tail_cons]

theorem window_length (h : cycle ≠ []) (k : Int) (m : Nat) : (window cycle k m).length = m := by
  induction m generalizing k with
  | zero => rfl
  | succ m ih =>
    obtain ⟨c, -, hc⟩ := exists_entry h k
    simp only [window_succ, hc, Option.toList_some, List.singleton_append, List.length_cons, ih]

theorem mem_of_mem_window {k : Int} {m : Nat} {c : α} (h : c ∈ window cycle k m) : c ∈ cycle := by
  obtain ⟨j, -, hj⟩ := List.mem_filterMap.mp h
  exact List.mem_of_getElem? hj

/-- Every entry is one of those that come first in a round of windows. -/
theorem exists_entry_eq {c : α} (hc : c ∈ cycle) (k : Int) :
    ∃ p : Nat, p < cycle.length ∧ entry cycle (k + p) = some c := by
  obtain ⟨i, hi, rfl⟩ := List.getElem_of_mem hc
  have hpos := length_pos (List.ne_nil_of_mem hc)
  have hnonneg := Int.emod_nonneg (i - k) (ne_of_gt hpos)
  have hlt := Int.emod_lt_of_pos (i - k) hpos
  refine ⟨((i - k) % cycle.length).toNat, by omega, ?_⟩
  rw [Int.toNat_of_nonneg hnonneg, ← entry_mod, Int.add_comm, Int.emod_add_emod,
    Int.sub_add_cancel, entry_mod, entry_of_lt hi, List.getElem?_eq_getElem hi]

theorem window_eq_take {m : Nat} (h : m ≤ cycle.length) : window cycle 0 m = cycle.take m := by
  induction m with
  | zero => rfl
  | succ m ih =>
    have hm : m < cycle.length := by omega
    have hlast : window cycle (0 + (m : Int)) 1 = [cycle[m]] := by
      rw [window_succ, window_zero, Int.zero_add, entry_of_lt hm, List.getElem?_eq_getElem hm]
      rfl
    rw [window_append, ih (by omega), hlast, List.take_succ_eq_append_getElem hm]

section Sum

variable (f : α → Nat)

theorem sum_window_length (k : Int) :
    ((window cycle k cycle.length).map f).sum = (cycle.map f).sum := by
  have hnat : ∀ i : Nat, ((window cycle i cycle.length).map f).sum = (cycle.map f).sum := by
    intro i
    induction i with
    | zero => rw [Nat.cast_zero, window_eq_take le_rfl, List.take_length]
    | succ i ih =>
      have hlast : window cycle (i + cycle.length) 1 = window cycle i 1 := window_add_length i 1
      have hround : window cycle i (cycle.length + 1) =
          window cycle i cycle.length ++ window cycle (i + cycle.length) 1 := window_append i _ 1
      rw [Nat.add_comm, window_append, hlast] at hround
      have hsum := congrArg (fun w => (w.map f).sum) hround
      simp only [List.map_append, List.sum_append] at hsum
      rw [Nat.cast_succ, ← ih]
      rw [Nat.cast_one] at hsum
      omega
  by_cases h : cycle = []
  · subst h
    rfl
  · have hnonneg := Int.emod_nonneg k (ne_of_gt (length_pos h))
    rw [← window_mod, ← Int.toNat_of_nonneg hnonneg, hnat]

theorem sum_window (k : Int) (q r : Nat) :
    ((window cycle k (q * cycle.length + r)).map f).sum =
      q * (cycle.map f).sum + ((window cycle k r).map f).sum := by
  induction q generalizing k with
  | zero => simp
  | succ q ih =>
    rw [show (q + 1) * cycle.length + r = cycle.length + (q * cycle.length + r) by ring,
      window_append, window_add_length, List.map_append, List.sum_append, sum_window_length, ih]
    ring

end Sum

end Window
