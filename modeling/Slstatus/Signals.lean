import Slstatus.Commands
import Slstatus.Schedule

/-! Signals and the sleep between two passes. A signal that ends the sleep starts the
next pass at once, but the counter only knows that a pass has started. -/

namespace Slstatus

inductive Signal
  | int | term | usr1
  deriving DecidableEq

def terminate (signo : Signal) (done : Bool) : Bool := if signo ≠ .usr1 then true else done

/-- The signals of one turn of the loop: those that are handled before it looks at
`done`, and those that end its sleep. A sleep that no signal ends lasts until the
interval is over, which it may be from the start. -/
structure Turn where
  pass : List Signal := []
  sleep : List Signal := []

def Turn.interrupted (u : Turn) : Bool := !u.sleep.isEmpty

structure MainState where
  run : RunState := {}
  done : Bool := false

def handle (signals : List Signal) (done : Bool) : Bool :=
  signals.foldl (fun done signo => terminate signo done) done

def turn (c : Config) (input : Nat → Outside) (u : Turn) (s : MainState) : MainState :=
  let run := iteration c input s.run
  let done := handle u.pass s.done
  if done then ⟨run, done⟩ else ⟨run, handle u.sleep done⟩

/-- The state after the first `n` turns, or after the turn that ended the loop. -/
def mainLoop (c : Config) (env : Nat → Nat → Outside) (turns : Nat → Turn) : Nat → MainState
  | 0 => {}
  | n + 1 =>
    let s := mainLoop c env turns n
    if s.done then s else turn c (env n) (turns n) s

/-- The loop starts each of the first `n` turns. -/
def Going (c : Config) (env : Nat → Nat → Outside) (turns : Nat → Turn) (n : Nat) : Prop :=
  ∀ t < n, (mainLoop c env turns t).done = false

def turnEvents (c : Config) (env : Nat → Nat → Outside) (turns : Nat → Turn) (t : Nat) :
    List (Event Outside Reading) :=
  let s := (mainLoop c env turns t).run
  (mainTick c s.loopCount (env t) s.statics).1

def Dispatches (events : List (Event Outside Reading)) (i : Nat) : Prop :=
  ∃ argv, .dispatch i argv ∈ events

/-- A regular poll happens in a turn that the timer has started. -/
def RegularPoll (c : Config) (env : Nat → Nat → Outside) (turns : Nat → Turn) (i t : Nat) : Prop :=
  (t = 0 ∨ (turns (t - 1)).interrupted = false) ∧ Polls (turnEvents c env turns t) i

def fullIntervals (turns : Nat → Turn) (t t' : Nat) : Nat :=
  (List.range' t (t' - t)).countP (fun s => !(turns s).interrupted)

/-- What the manual promises of USR1, over the first `n` turns. -/
structure InstantRedraw (c : Config) (env : Nat → Nat → Outside) (turns : Nat → Turn)
    (table : List Arg) (n : Nat) : Prop where
  redraws : ∀ t, t + 1 < n → (turns t).interrupted = true → ∀ i < table.length,
    Polls (turnEvents c env turns (t + 1)) i ∧ Dispatches (turnEvents c env turns (t + 1)) i
  timing : ∀ i m, table[i]? = some m → ∀ t t', t < t' → t' < n →
    RegularPoll c env turns i t → RegularPoll c env turns i t' →
    (∀ u, t < u → u < t' → ¬ RegularPoll c env turns i u) →
    fullIntervals turns t t' = m.updateInterval.toNat

theorem handle_usr1 {signals : List Signal} (h : ∀ signo ∈ signals, signo = .usr1) (done : Bool) :
    handle signals done = done := by
  induction signals with
  | nil => rfl
  | cons signo signals ih =>
    have hsigno : terminate signo done = done := by
      rw [h signo List.mem_cons_self]
      rfl
    have hrest := ih (fun s hs => h s (List.mem_cons_of_mem _ hs))
    rw [handle, List.foldl_cons, hsigno]
    exact hrest

section Loop

variable {c : Config} {env : Nat → Nat → Outside} {turns : Nat → Turn} {n t : Nat}

theorem mainLoop_succ (h : (mainLoop c env turns t).done = false) :
    mainLoop c env turns (t + 1) = turn c (env t) (turns t) (mainLoop c env turns t) := by
  rw [mainLoop, h]
  rfl

theorem turn_run (input : Nat → Outside) (u : Turn) (s : MainState) :
    (turn c input u s).run = iteration c input s.run := by
  rw [turn]
  split
  · rfl
  · rfl

/-- Signals leave the counter and the components alone. -/
theorem mainLoop_run (h : Going c env turns t) :
    (mainLoop c env turns t).run = runMain c env t := by
  induction t with
  | zero => rfl
  | succ t ih =>
    have hbefore := ih (fun s hs => h s (Nat.lt_succ_of_lt hs))
    rw [mainLoop_succ (h t (Nat.lt_succ_self t)), turn_run, hbefore]
    rfl

theorem going_of_usr1
    (h : ∀ t, (∀ signo ∈ (turns t).pass, signo = .usr1) ∧ ∀ signo ∈ (turns t).sleep, signo = .usr1)
    (n : Nat) : Going c env turns n := by
  intro t _
  induction t with
  | zero => rfl
  | succ t ih =>
    have hdone := ih (by omega)
    rw [mainLoop_succ hdone]
    simp only [turn, hdone, handle_usr1 (h t).1, handle_usr1 (h t).2]
    rfl

theorem turnEvents_eq (h : Going c env turns n) (ht : t < n) :
    turnEvents c env turns t = (passAt c env t).1 := by
  have hrun := mainLoop_run (fun s hs => h s (Nat.lt_trans hs ht))
  simp only [turnEvents, hrun, passAt]

theorem fullIntervals_all {t' : Nat} (h : ∀ s, t ≤ s → s < t' → (turns s).interrupted = false) :
    fullIntervals turns t t' = t' - t := by
  have hall : (List.range' t (t' - t)).countP (fun s => !(turns s).interrupted) =
      (List.range' t (t' - t)).length := by
    rw [List.countP_eq_length]
    intro s hs
    rw [List.mem_range'_1] at hs
    rw [h s hs.1 (by omega)]
    rfl
  rw [fullIntervals, hall, List.length_range']

theorem fullIntervals_last {e : Nat} (hlast : (turns (t + e)).interrupted = false)
    (h : ∀ s, t ≤ s → s < t + e → (turns s).interrupted = true) :
    fullIntervals turns t (t + e + 1) = 1 := by
  have hbefore : (List.range' t e).countP (fun s => !(turns s).interrupted) = 0 := by
    rw [List.countP_eq_zero]
    intro s hs
    rw [List.mem_range'_1] at hs
    rw [h s hs.1 hs.2]
    decide
  rw [fullIntervals, show t + e + 1 - t = e + 1 by omega, List.range'_concat, List.countP_append,
    hbefore, Nat.one_mul]
  simp [hlast]

end Loop

section Redraw

variable {c : Config} {table : List Arg} {env : Nat → Nat → Outside} {turns : Nat → Turn}
  {n t i : Nat} {m : Arg}

theorem dispatches_of_polls (htable : c.table = .ok table) (h : Undisturbed c env n) (ht : t < n)
    (hpoll : Polls (passAt c env t).1 i) : Dispatches (passAt c env t).1 i := by
  have hend := h.finished ht
  have hpass := passAt_eq htable hend
  rw [hpass] at hend hpoll ⊢
  obtain ⟨x, r, hmem⟩ := hpoll
  obtain ⟨m, argv, hm, hsend⟩ := sent_of_finished table 0 _ rfl hend hmem
  exact ⟨argv, dispatch_mem_iff.mpr ⟨m, x, r, hm, hmem, hsend⟩⟩

/-- A pass polls and dispatches every module when the counter is a common multiple of
their intervals. -/
theorem redrawn_iff (htable : c.table = .ok table) (h : Undisturbed c env n) (ht : t < n) :
    (∀ i < table.length, Polls (passAt c env t).1 i ∧ Dispatches (passAt c env t).1 i) ↔
      ∀ m ∈ table, m.updateInterval.toNat ∣ t % 2 ^ 32 := by
  constructor
  · intro hall m hmem
    obtain ⟨i, hi, hm⟩ := List.mem_iff_getElem.mp hmem
    exact (polled_iff htable h (List.getElem?_eq_some_iff.mpr ⟨hi, hm⟩) ht).mp (hall i hi).1
  · intro hdvd i hi
    have hpoll : Polls (passAt c env t).1 i :=
      (polled_iff htable h (List.getElem?_eq_getElem hi) ht).mpr
        (hdvd _ (List.getElem_mem hi))
    exact ⟨hpoll, dispatches_of_polls htable h ht hpoll⟩

theorem regularPoll_iff (htable : c.table = .ok table) (h : Undisturbed c env n)
    (hgoing : Going c env turns n) (hm : table[i]? = some m) (ht : t < n) :
    RegularPoll c env turns i t ↔
      (t = 0 ∨ (turns (t - 1)).interrupted = false) ∧ m.updateInterval.toNat ∣ t % 2 ^ 32 := by
  rw [RegularPoll, turnEvents_eq hgoing ht]
  exact and_congr_right (fun _ => polled_iff htable h hm ht)

theorem timing_of_uninterrupted (htable : c.table = .ok table) (h : Undisturbed c env n)
    (hgoing : Going c env turns n) (hm : table[i]? = some m) (hk : m.updateInterval ≠ 0)
    (hwrap : n ≤ 2 ^ 32 ∨ m.updateInterval.toNat ∣ 2 ^ 32)
    (hsleep : ∀ t, t + 1 < n → (turns t).interrupted = false) {t' : Nat} (hlt : t < t')
    (hn : t' < n) (ht : RegularPoll c env turns i t) (ht' : RegularPoll c env turns i t')
    (hbetween : ∀ u, t < u → u < t' → ¬ RegularPoll c env turns i u) :
    fullIntervals turns t t' = m.updateInterval.toNat := by
  have hregular : ∀ u < n, Polled c env i u → RegularPoll c env turns i u := by
    intro u hu hpolled
    rw [RegularPoll, turnEvents_eq hgoing hu]
    refine ⟨?_, hpolled⟩
    cases u with
    | zero => exact .inl rfl
    | succ u => exact .inr (hsleep u hu)
  have hspaced := (polled_on_schedule_iff htable h hm hk).2.mpr hwrap
  have hgap : t' = t + m.updateInterval.toNat := by
    rw [RegularPoll, turnEvents_eq hgoing (Nat.lt_trans hlt hn)] at ht
    rw [RegularPoll, turnEvents_eq hgoing hn] at ht'
    apply hspaced t t' hlt hn ht.2 ht'.2
    intro u hu hu' hpolled
    exact hbetween u hu hu' (hregular u (Nat.lt_trans hu' hn) hpolled)
  rw [fullIntervals_all (fun s _ hs => hsleep s (by omega))]
  omega

/-- With the interval 1 every turn polls, so that the regular polls are apart by the
one interval that was slept out. -/
theorem timing_of_one (htable : c.table = .ok table) (h : Undisturbed c env n)
    (hgoing : Going c env turns n) (hm : table[i]? = some m) (hone : m.updateInterval = 1)
    {t' : Nat} (hlt : t < t') (hn : t' < n) (ht' : RegularPoll c env turns i t')
    (hbetween : ∀ u, t < u → u < t' → ¬ RegularPoll c env turns i u) :
    fullIntervals turns t t' = m.updateInterval.toNat := by
  have hregular : ∀ u < n, RegularPoll c env turns i u ↔
      (u = 0 ∨ (turns (u - 1)).interrupted = false) := by
    intro u hu
    rw [regularPoll_iff htable h hgoing hm hu, hone]
    exact and_iff_left (Nat.one_dvd _)
  obtain ⟨e, rfl⟩ : ∃ e, t' = t + e + 1 := ⟨t' - t - 1, by omega⟩
  have hlast : (turns (t + e)).interrupted = false := by
    rcases (hregular _ hn).mp ht' with hzero | hlast
    · omega
    · exact hlast
  have hskipped : ∀ s, t ≤ s → s < t + e → (turns s).interrupted = true := by
    intro s hs hse
    have hnot := hbetween (s + 1) (by omega) (by omega)
    rw [hregular (s + 1) (by omega)] at hnot
    cases hint : (turns s).interrupted with
    | true => rfl
    | false => exact absurd (.inr hint) hnot
  rw [fullIntervals_last hlast hskipped, hone]
  rfl

end Redraw

theorem instantRedraw_of_step {c : Config} {table : List Arg} (htable : c.table = .ok table)
    (hk : ∀ m ∈ table, m.updateInterval ≠ 0) {env : Nat → Nat → Outside} {turns : Nat → Turn}
    {n : Nat} (h : Undisturbed c env n) (hgoing : Going c env turns n)
    (hstep : ∀ t, t + 1 < n → (turns t).interrupted = true → ∀ m ∈ table, m.updateInterval = 1)
    (hwrap : n ≤ 2 ^ 32 ∨ ∀ m ∈ table, m.updateInterval.toNat ∣ 2 ^ 32) :
    InstantRedraw c env turns table n := by
  constructor
  · intro t ht hint
    have hones := hstep t ht hint
    rw [turnEvents_eq hgoing ht, redrawn_iff htable h ht]
    intro m hm
    rw [hones m hm]
    exact Nat.one_dvd _
  · intro i m hm t t' hlt hn hpoll hpoll' hbetween
    have hmem := List.mem_of_getElem? hm
    by_cases hone : m.updateInterval = 1
    · exact timing_of_one htable h hgoing hm hone hlt hn hpoll' hbetween
    · have hsleep : ∀ t, t + 1 < n → (turns t).interrupted = false := by
        intro s hs
        cases hint : (turns s).interrupted with
        | false => rfl
        | true => exact absurd (hstep s hs hint m hmem) hone
      exact timing_of_uninterrupted htable h hgoing hm (hk m hmem)
        (hwrap.imp_right (fun hall => hall m hmem)) hsleep hlt hn hpoll hpoll' hbetween

def firstInterrupted : Nat → Turn
  | 0 => { sleep := [.usr1] }
  | _ + 1 => {}

theorem going_firstInterrupted (c : Config) (env : Nat → Nat → Outside) (n : Nat) :
    Going c env firstInterrupted n := by
  apply going_of_usr1
  intro t
  cases t with
  | zero => simp [firstInterrupted]
  | succ t => simp [firstInterrupted]

/-- After an interrupted sleep the modules whose intervals divide the counter are drawn
again. A run keeps the promise of USR1 if its sleeps are interrupted only while every
interval is 1, and a table keeps it for all signals exactly if all its intervals are. -/
theorem instant_redraw_iff {c : Config} {table : List Arg} (htable : c.table = .ok table)
    (hk : ∀ m ∈ table, m.updateInterval ≠ 0) (env : Nat → Nat → Outside) :
    (∀ turns n t, Undisturbed c env n → Going c env turns n → t < n →
      ((∀ i < table.length, Polls (turnEvents c env turns t) i ∧
        Dispatches (turnEvents c env turns t) i) ↔
        ∀ m ∈ table, m.updateInterval.toNat ∣ t % 2 ^ 32)) ∧
    (∀ turns n, Undisturbed c env n → Going c env turns n →
      (∀ t, t + 1 < n → (turns t).interrupted = true → ∀ m ∈ table, m.updateInterval = 1) →
      (n ≤ 2 ^ 32 ∨ ∀ m ∈ table, m.updateInterval.toNat ∣ 2 ^ 32) →
      InstantRedraw c env turns table n) ∧
    ((∀ n, Undisturbed c env n) →
      ((∀ turns n, Going c env turns n → InstantRedraw c env turns table n) ↔
        ∀ m ∈ table, m.updateInterval = 1)) := by
  refine ⟨?_, ?_, ?_⟩
  · intro turns n t h hgoing ht
    rw [turnEvents_eq hgoing ht]
    exact redrawn_iff htable h ht
  · intro turns n h hgoing hstep hwrap
    exact instantRedraw_of_step htable hk h hgoing hstep hwrap
  · intro h
    constructor
    · intro hall m hm
      have hgoing := going_firstInterrupted c env 2
      have hredraw := (hall firstInterrupted 2 hgoing).redraws 0 (by decide) rfl
      rw [turnEvents_eq hgoing (by decide), redrawn_iff htable (h 2) (by decide)] at hredraw
      have hdvd : m.updateInterval.toNat ∣ 1 := hredraw m hm
      exact UInt32.toNat_inj.mp (Nat.dvd_one.mp hdvd)
    · intro hones turns n hgoing
      apply instantRedraw_of_step htable hk (h n) hgoing (fun _ _ _ => hones)
      refine .inr ?_
      intro m hm
      rw [hones m hm]
      exact Nat.one_dvd _

theorem instant_redraw_iff_clock :
    InstantRedraw (clockConfig 1) upEnv firstInterrupted [clock 1] 3 := by
  have hone : ∀ m ∈ [clock 1], m.updateInterval = 1 := by
    intro m hm
    rw [List.mem_singleton.mp hm]
    rfl
  have hk : ∀ m ∈ [clock 1], m.updateInterval ≠ 0 := by
    intro m hm
    rw [hone m hm]
    decide
  exact (instant_redraw_iff (c := clockConfig 1) rfl hk upEnv).2.1 firstInterrupted 3
    (clock_undisturbed (by decide) 3) (going_firstInterrupted _ _ 3) (fun _ _ _ => hone)
    (.inl (by decide))

theorem no_instant_redraw :
    (∀ n, Undisturbed (clockConfig 2) upEnv n) ∧
      (∀ n, Going (clockConfig 2) upEnv firstInterrupted n) ∧
      ¬ InstantRedraw (clockConfig 2) upEnv firstInterrupted [clock 2] 2 := by
  have hrun : ∀ n, Undisturbed (clockConfig 2) upEnv n := fun n => clock_undisturbed (by decide) n
  have hgoing := going_firstInterrupted (clockConfig 2) upEnv
  refine ⟨hrun, hgoing, ?_⟩
  intro h
  have hpoll := (h.redraws 0 (by decide) rfl 0 (by decide)).1
  rw [turnEvents_eq (hgoing 2) (by decide)] at hpoll
  have hdvd := (polled_iff (c := clockConfig 2) rfl (hrun 2) (m := clock 2) rfl (by decide)).mp hpoll
  exact absurd hdvd (by decide)

end Slstatus
