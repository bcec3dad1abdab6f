import Slstatus.Instances

/-! When a module is called: in the iterations that its update interval divides, as
long as every pass over the modules gets to its end. -/

namespace Slstatus

section Pass

variable {interval : UInt32} {size : Nat} {unknownString : Option Bytes} {loopCount : UInt32}
  {input : Nat → Outside}

theorem instanceLog_append (i : Nat) (events events' : List (Event Outside Reading)) :
    instanceLog i (events ++ events') = instanceLog i events ++ instanceLog i events' := by
  simp only [instanceLog, polls_append, CallLog.project, List.filterMap_append]

theorem instanceLog_updateModule {k : Nat} {m : Arg} {x : Outside} {s t : Statics}
    {events : List (Event Outside Reading)}
    (h : updateModule (live interval) size unknownString k m x s = (events, none, t)) (i : Nat) :
    (instanceLog i events).map Prod.fst = if i = k then [x] else [] := by
  rcases updateModule_cases (live interval) size unknownString k m x s with
    ⟨f, h'⟩ | ⟨func, r, t', -, -, ⟨e, -, h'⟩ | ⟨argv, -, h'⟩⟩
  · rw [h'] at h
    cases h
  · rw [h'] at h
    cases h
  · rw [h'] at h
    obtain rfl := (Prod.mk.inj h).1
    by_cases hi : i = k
    · simp [instanceLog, polls, CallLog.project, hi]
    · have hki : k ≠ i := Ne.symm hi
      simp [instanceLog, polls, CallLog.project, hi, hki]

def dueAt (table : List Arg) (loopCount : UInt32) (i : Nat) : Bool :=
  table[i]?.any (fun m => loopCount % m.updateInterval == 0)

theorem instanceLog_moduleLoop {i : Nat} (ms : List Arg) (k : Nat) (s : Statics)
    (h : (moduleLoop (live interval) size unknownString loopCount input k ms s).2.1 = .finished) :
    (instanceLog i (moduleLoop (live interval) size unknownString loopCount input k ms s).1).map
        Prod.fst = if k ≤ i ∧ dueAt ms loopCount (i - k) then [input i] else [] := by
  induction ms generalizing k s with
  | nil => simp [moduleLoop, instanceLog, polls, CallLog.project, dueAt]
  | cons m ms ih =>
    have hhead : dueAt (m :: ms) loopCount 0 = (loopCount % m.updateInterval == 0) := rfl
    have htail : k < i → dueAt (m :: ms) loopCount (i - k) = dueAt ms loopCount (i - (k + 1)) := by
      intro hlt
      obtain ⟨j, rfl⟩ : ∃ j, i = k + 1 + j := ⟨i - (k + 1), by omega⟩
      rw [show k + 1 + j - k = j + 1 by omega, show k + 1 + j - (k + 1) = j by omega]
      rfl
    by_cases hzero : m.updateInterval = 0
    · rw [moduleLoop_zero hzero] at h
      cases h
    · by_cases hdue : loopCount % m.updateInterval = 0
      · cases hbody : updateModule (live interval) size unknownString k m (input k) s with
        | mk events out =>
        obtain ⟨e, t⟩ := out
        cases e with
        | some e =>
          have hne := updateModule_ne_finished (live interval) size unknownString k m (input k) s
          rw [moduleLoop_stop hzero hdue hbody] at h
          rw [hbody] at hne
          exact absurd (congrArg some h) hne
        | none =>
          rw [moduleLoop_next hzero hdue hbody] at h ⊢
          have hrest := ih (k + 1) t h
          rw [instanceLog_append, List.map_append, hrest, instanceLog_updateModule hbody]
          rcases Nat.lt_trichotomy i k with hlt | rfl | hgt
          · simp [show i ≠ k by omega, show ¬ k + 1 ≤ i by omega, show ¬ k ≤ i by omega]
          · simp [hhead, hdue, show ¬ i + 1 ≤ i by omega]
          · simp [htail hgt, show i ≠ k by omega, show k + 1 ≤ i by omega, show k ≤ i by omega]
      · rw [moduleLoop_skip hzero hdue] at h ⊢
        rw [ih (k + 1) s h]
        rcases Nat.lt_trichotomy i k with hlt | rfl | hgt
        · simp [show ¬ k + 1 ≤ i by omega, show ¬ k ≤ i by omega]
        · simp [hhead, hdue, show ¬ i + 1 ≤ i by omega]
        · simp [htail hgt, show k + 1 ≤ i by omega, show k ≤ i by omega]

end Pass

theorem dueAt_iff {table : List Arg} {i t : Nat} {m : Arg} (hm : table[i]? = some m)
    (ht : t < 2 ^ 32) : dueAt table (UInt32.ofNat t) i ↔ t % m.updateInterval.toNat = 0 := by
  rw [dueAt, hm, Option.any_some, beq_iff_eq, ← UInt32.toNat_inj, UInt32.toNat_mod,
    UInt32.toNat_ofNat_of_lt' ht]
  exact Iff.rfl

/-- In a run whose passes all get to their end, a module reads its inputs in the
iterations that its update interval divides, and in no others. -/
theorem instance_inputs {c : Config} {table : List Arg} {i : Nat} (htable : c.table = .ok table)
    (hsize : ¬ c.maximumStatusLength < 1) (env : Nat → Nat → Outside) (n : Nat)
    (h : ∀ t < n, (mainTick c (runMain c env t).loopCount (env t) (runMain c env t).statics).2.1 =
      .finished) :
    (runMain c env n).fault = none ∧ (runMain c env n).loopCount = UInt32.ofNat n ∧
    (instanceLog i (runMain c env n).log).map Prod.fst =
      ((List.range n).filter (fun t => dueAt table (UInt32.ofNat t) i)).map (fun t => env t i) := by
  induction n with
  | zero => exact ⟨rfl, rfl, rfl⟩
  | succ n ih =>
    obtain ⟨hfault, hcount, hlog⟩ := ih (fun t ht => h t (Nat.lt_succ_of_lt ht))
    have hend := h n (Nat.lt_succ_self n)
    have hnext : runMain c env (n + 1) = iteration c (env n) (runMain c env n) := rfl
    rw [hnext]
    simp only [iteration, hfault]
    refine ⟨by rw [hend]; rfl, by rw [hcount, UInt32.ofNat_add]; rfl, ?_⟩
    simp only [mainTick, if_neg hsize, htable] at hend ⊢
    rw [instanceLog_append, List.map_append, hlog, instanceLog_moduleLoop table 0 _ hend, hcount,
      List.range_succ, List.filter_append, List.map_append]
    congr 1
    by_cases hdue : dueAt table (UInt32.ofNat n) i = true
    · simp [hdue]
    · simp [hdue]

end Slstatus
