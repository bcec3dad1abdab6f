import Mathlib.Algebra.Group.Nat.Defs
import Slstatus.Lib.WrapCounter
import Slstatus.Sampling

/-! The schedule that the 32-bit counter of main gives a module. It is the one that
the update interval promises up to the first wrap, and after it only for the intervals
that divide `2 ^ 32`. -/

namespace Slstatus

/-- Iteration `t` of a run. -/
def passAt (c : Config) (env : Nat → Nat → Outside) (t : Nat) :
    List (Event Outside Reading) × LoopEnd × Statics :=
  mainTick c (runMain c env t).loopCount (env t) (runMain c env t).statics

def Polls (events : List (Event Outside Reading)) (i : Nat) : Prop :=
  ∃ x r, .poll i x r ∈ events

def Polled (c : Config) (env : Nat → Nat → Outside) (i t : Nat) : Prop :=
  Polls (passAt c env t).1 i

/-- A run of `n` iterations in which no status was too long and nothing undefined
happened. -/
structure Undisturbed (c : Config) (env : Nat → Nat → Outside) (n : Nat) : Prop where
  fits : ∀ t < n, (passAt c env t).2.1 ≠ .broke
  running : (runMain c env n).fault = none

section Undisturbed

variable {c : Config} {table : List Arg} {env : Nat → Nat → Outside} {n t i : Nat} {m : Arg}

theorem runMain_succ (hfault : (runMain c env t).fault = none) :
    (runMain c env (t + 1)).fault = (passAt c env t).2.1.fault := by
  have hnext : runMain c env (t + 1) = iteration c (env t) (runMain c env t) := rfl
  rw [hnext]
  simp only [iteration, hfault]
  rfl

theorem running_of_succ (h : (runMain c env (t + 1)).fault = none) :
    (runMain c env t).fault = none := by
  cases hfault : (runMain c env t).fault with
  | none => rfl
  | some f =>
    have hnext : runMain c env (t + 1) = iteration c (env t) (runMain c env t) := rfl
    rw [hnext] at h
    simp only [iteration, hfault] at h
    cases h

theorem running_of_le (htn : t ≤ n) (h : (runMain c env n).fault = none) :
    (runMain c env t).fault = none := by
  induction htn with
  | refl => exact h
  | step _ ih => exact ih (running_of_succ h)

theorem Undisturbed.finished (h : Undisturbed c env n) (ht : t < n) :
    (passAt c env t).2.1 = .finished := by
  have hbefore := running_of_le (Nat.le_of_lt ht) h.running
  have hafter := running_of_le ht h.running
  rw [runMain_succ hbefore] at hafter
  cases hend : (passAt c env t).2.1 with
  | finished => rfl
  | broke => exact absurd hend (h.fits t ht)
  | faulted f =>
    rw [hend] at hafter
    cases hafter

theorem mem_instanceLog {events : List (Event Outside Reading)} {x : Outside} {r : Reading} :
    (x, r) ∈ instanceLog i events ↔ .poll i x r ∈ events := by
  rw [← mem_polls, instanceLog, CallLog.project, List.mem_filterMap]
  constructor
  · intro hex
    obtain ⟨⟨⟨j, y⟩, q⟩, hmem, hown⟩ := hex
    by_cases hj : j = i
    · simp only [if_pos hj, Option.map_some, Option.some.injEq, Prod.mk.injEq] at hown
      obtain ⟨rfl, rfl⟩ := hown
      rw [← hj]
      exact hmem
    · simp only [if_neg hj, Option.map_none] at hown
      cases hown
  · intro hmem
    refine ⟨((i, x), r), hmem, ?_⟩
    simp only [if_pos, Option.map_some]

theorem polled_iff_ne_nil :
    Polled c env i t ↔ (instanceLog i (passAt c env t).1).map Prod.fst ≠ [] := by
  rw [ne_eq, List.map_eq_nil_iff]
  constructor
  · intro hex
    obtain ⟨x, r, h⟩ := hex
    exact List.ne_nil_of_mem (mem_instanceLog.mpr h)
  · intro hne
    obtain ⟨p, h⟩ := List.exists_mem_of_ne_nil _ hne
    exact ⟨p.1, p.2, mem_instanceLog.mp h⟩

theorem dueAt_ofNat_iff (hm : table[i]? = some m) :
    dueAt table (UInt32.ofNat t) i ↔ m.updateInterval.toNat ∣ t % 2 ^ 32 := by
  have hmod : UInt32.ofNat (t % 2 ^ 32) = UInt32.ofNat t := by
    rw [← UInt32.toNat_inj, UInt32.toNat_ofNat', UInt32.toNat_ofNat', Nat.mod_mod]
  rw [← hmod, dueAt_iff hm (Nat.mod_lt _ (Nat.two_pow_pos 32)), Nat.dvd_iff_mod_eq_zero]

theorem size_of_finished (h : (passAt c env t).2.1 = .finished) :
    ¬ c.maximumStatusLength < 1 := by
  intro hsize
  simp only [passAt, mainTick, if_pos hsize] at h
  cases h

theorem passAt_eq (htable : c.table = .ok table) (h : (passAt c env t).2.1 = .finished) :
    passAt c env t = moduleLoop (live c.interval) c.maximumStatusLength.toNatClampNeg
      c.unknownString (runMain c env t).loopCount (env t) 0 table (runMain c env t).statics := by
  simp only [passAt, mainTick, if_neg (size_of_finished h), htable]

theorem Undisturbed.loopCount (htable : c.table = .ok table) (h : Undisturbed c env n) (ht : t < n) :
    (runMain c env t).loopCount = UInt32.ofNat t := by
  have hsize := size_of_finished (h.finished ht)
  exact (instance_inputs (i := 0) htable hsize env t
    (fun s hs => h.finished (Nat.lt_trans hs ht))).2.1

theorem polled_iff (htable : c.table = .ok table) (h : Undisturbed c env n)
    (hm : table[i]? = some m) (ht : t < n) :
    Polled c env i t ↔ m.updateInterval.toNat ∣ t % 2 ^ 32 := by
  have hend := h.finished ht
  have hpass := passAt_eq htable hend
  rw [hpass] at hend
  rw [polled_iff_ne_nil, hpass, instanceLog_moduleLoop table 0 _ hend, h.loopCount htable ht, Nat.sub_zero,
    ← dueAt_ofNat_iff hm]
  by_cases hdue : dueAt table (UInt32.ofNat t) i = true
  · simp [hdue]
  · simp [hdue]

end Undisturbed

/-- A module is polled in the iterations that its interval divides, and at the distance
of its interval, in the runs that do not reach the wrap of the counter and in those
whose wrap its interval divides. -/
theorem polled_on_schedule_iff {c : Config} {table : List Arg} (htable : c.table = .ok table)
    {env : Nat → Nat → Outside} {n : Nat} (h : Undisturbed c env n) {i : Nat} {m : Arg}
    (hm : table[i]? = some m) (hk : m.updateInterval ≠ 0) :
    ((∀ t < n, Polled c env i t ↔ m.updateInterval.toNat ∣ t) ↔
      n ≤ 2 ^ 32 ∨ m.updateInterval.toNat ∣ 2 ^ 32) ∧
    (WrapCounter.Spaced m.updateInterval.toNat n (Polled c env i) ↔
      n ≤ 2 ^ 32 ∨ m.updateInterval.toNat ∣ 2 ^ 32) := by
  have hpolled : ∀ t < n, Polled c env i t ↔ m.updateInterval.toNat ∣ t % 2 ^ 32 :=
    fun t ht => polled_iff htable h hm ht
  have hpos : 0 < m.updateInterval.toNat := by
    rw [Nat.pos_iff_ne_zero]
    intro hzero
    exact hk (UInt32.toNat_inj.mp hzero)
  constructor
  · rw [← WrapCounter.dvd_mod_iff_iff]
    constructor
    · intro hs t ht
      rw [← hpolled t ht]
      exact hs t ht
    · intro hs t ht
      rw [hpolled t ht]
      exact hs t ht
  · rw [← WrapCounter.spaced_iff hpos (Nat.two_pow_pos 32)]
    constructor
    · intro hs
      exact hs.congr (fun t ht => (hpolled t ht).symm)
    · intro hs
      exact hs.congr hpolled

def clock (updateInterval : UInt32) : Arg :=
  ⟨some .uptime, some (lit "%s"), none, some (lit "1"), updateInterval⟩

def clockConfig (updateInterval : UInt32) : Config where
  numModules := 1
  modules := some [clock updateInterval]

def upEnv : Nat → Nat → Outside := fun _ _ => { text := some (lit "up") }

theorem moduleLoop_clock {k : UInt32} (hk : k ≠ 0) (loopCount : UInt32) (s : Statics) :
    (moduleLoop (live 1000) 2048 none loopCount (upEnv 0) 0 [clock k] s).2.1 = .finished := by
  by_cases hdue : loopCount % k = 0
  · rw [moduleLoop_next (m := clock k) hk hdue (updateModule_sent rfl rfl rfl)]
    rfl
  · rw [moduleLoop_skip (m := clock k) hk hdue]
    rfl

theorem clock_undisturbed {k : UInt32} (hk : k ≠ 0) (n : Nat) :
    Undisturbed (clockConfig k) upEnv n := by
  have hend : ∀ t, (passAt (clockConfig k) upEnv t).2.1 = .finished :=
    fun t => moduleLoop_clock hk _ _
  have hrun : (runMain (clockConfig k) upEnv n).fault = none := by
    induction n with
    | zero => rfl
    | succ n ih =>
      rw [runMain_succ ih, hend]
      rfl
  refine ⟨?_, hrun⟩
  intro t _ hbroke
  rw [hend] at hbroke
  cases hbroke

theorem polled_on_schedule_iff_clock :
    ((∀ t < 2 ^ 32, Polled (clockConfig 3) upEnv 0 t ↔ 3 ∣ t) ↔ 2 ^ 32 ≤ 2 ^ 32 ∨ 3 ∣ 2 ^ 32) ∧
    (WrapCounter.Spaced 3 (2 ^ 32) (Polled (clockConfig 3) upEnv 0) ↔
      2 ^ 32 ≤ 2 ^ 32 ∨ 3 ∣ 2 ^ 32) := by
  have hthree : (3 : UInt32) ≠ 0 := by decide
  exact polled_on_schedule_iff (c := clockConfig 3) rfl (clock_undisturbed hthree _) (m := clock 3) rfl
    hthree

theorem polled_off_schedule :
    (∀ n, Undisturbed (clockConfig 3) upEnv n) ∧ Polled (clockConfig 3) upEnv 0 (2 ^ 32) ∧
      ¬ 3 ∣ 2 ^ 32 := by
  have hrun := clock_undisturbed (k := 3) (by decide)
  refine ⟨hrun, ?_, by decide⟩
  rw [polled_iff (c := clockConfig 3) rfl (hrun (2 ^ 32 + 1)) rfl (Nat.lt_succ_self _), Nat.mod_self]
  exact Nat.dvd_zero _

end Slstatus
