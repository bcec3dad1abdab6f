import Slstatus.Lib.Transition
import Slstatus.Run

/-! The children of main. Two components start one and wait for it, and each status command
is one, after which `wait` takes any child that has ended. Children end and signals arrive
at any moment. -/

namespace Slstatus

/-- The calls that make a child: `popen` in run_command.c, `posix_spawnp` in run_exec.c and
`fork` in main. -/
inductive Action
  | command
  | exec
  | status (argv : List Bytes)
  deriving DecidableEq

/-- Where main stands: between two such calls, in `wait`, or in the `waitpid` for one
child, which `pclose` calls again after a signal and run_exec.c does not. -/
inductive Place
  | ready
  | waiting
  | waitingFor (pid : Nat) (again : Bool)
  | died
  deriving DecidableEq

inductive Life
  | started (pid : Nat) (a : Action)
  | failed (a : Action)
  | ended (pid : Nat)
  | interrupted
  deriving DecidableEq

structure Family where
  todo : List Action
  place : Place := .ready
  running : List Nat := []
  zombies : List Nat := []
  fresh : Nat := 0
  log : List Life := []
  deriving DecidableEq

inductive Happening
  | create (succeeds : Bool)
  | exit (pid : Nat)
  | reap (pid : Nat)
  | noChild
  | signal
  deriving DecidableEq

def Action.waits (pid : Nat) : Action → Place
  | .command => .waitingFor pid true
  | .exec => .waitingFor pid false
  | .status _ => .waiting

/-- A `popen` that fails gives NULL, a `posix_spawnp` that fails ends main, and a `fork`
that fails goes unnoticed. -/
def Action.fails : Action → Place
  | .command => .ready
  | .exec => .died
  | .status _ => .waiting

def Family.create (w : Family) (a : Action) (todo : List Action) : Family :=
  { w with
    todo := todo
    place := a.waits w.fresh
    running := w.fresh :: w.running
    fresh := w.fresh + 1
    log := w.log ++ [.started w.fresh a] }

def Family.fail (w : Family) (a : Action) (todo : List Action) : Family :=
  { w with todo := todo, place := a.fails, log := w.log ++ [.failed a] }

def Family.exit (w : Family) (pid : Nat) : Family :=
  { w with
    running := w.running.erase pid
    zombies := pid :: w.zombies
    log := w.log ++ [.ended pid] }

def Family.reap (w : Family) (pid : Nat) : Family :=
  { w with place := .ready, zombies := w.zombies.erase pid }

def Family.interrupt (w : Family) : Family :=
  { w with place := .ready, log := w.log ++ [.interrupted] }

/-- A signal ends a call only while it blocks, that is while no child that the call waits
for has ended. -/
def happen (w : Family) : Happening → Option Family
  | .create succeeds =>
    match w.place, w.todo with
    | .ready, a :: todo => some (if succeeds then w.create a todo else w.fail a todo)
    | _, _ => none
  | .exit pid => if pid ∈ w.running then some (w.exit pid) else none
  | .reap pid =>
    match w.place with
    | .waiting => if pid ∈ w.zombies then some (w.reap pid) else none
    | .waitingFor p _ => if pid = p ∧ pid ∈ w.zombies then some (w.reap pid) else none
    | _ => none
  | .noChild =>
    if w.place = .waiting ∧ w.running = [] ∧ w.zombies = [] then some { w with place := .ready }
    else none
  | .signal =>
    match w.place with
    | .waiting => if w.running ≠ [] ∧ w.zombies = [] then some w.interrupt else none
    | .waitingFor p false => if p ∈ w.running then some w.interrupt else none
    | _ => none

def Family.start (program : List Action) : Family := { todo := program }

def begun (log : List Life) : List Action :=
  log.filterMap (fun | .started _ a => some a | .failed a => some a | _ => none)

/-- The children that run after what the log says. -/
def alive (log : List Life) : List Nat :=
  log.foldl (fun pids e =>
    match e with
    | .started pid _ => pid :: pids
    | .ended pid => pids.erase pid
    | _ => pids) []

def interruptions (log : List Life) : Nat := log.countP (· = .interrupted)

def Place.waits : Place → Nat
  | .waiting => 1
  | .waitingFor .. => 1
  | _ => 0

def Family.children (w : Family) : Nat := w.running.length + w.zombies.length

theorem happen_cases {w w' : Family} {s : Happening} (h : happen w s = some w') :
    (∃ a todo, w.place = .ready ∧ w.todo = a :: todo ∧ w' = w.create a todo) ∨
    (∃ a todo, w.place = .ready ∧ w.todo = a :: todo ∧ w' = w.fail a todo) ∨
    (∃ pid, pid ∈ w.running ∧ w' = w.exit pid) ∨
    (∃ pid, w.place.waits = 1 ∧ pid ∈ w.zombies ∧ w' = w.reap pid) ∨
    (w.place = .waiting ∧ w.running = [] ∧ w.zombies = [] ∧ w' = { w with place := .ready }) ∨
    (w.place.waits = 1 ∧ w' = w.interrupt) := by
  cases s with
  | create succeeds =>
    cases hp : w.place <;> simp only [happen, hp, reduceCtorEq] at h
    cases ht : w.todo <;> simp only [ht, reduceCtorEq, Option.some.injEq] at h
    cases succeeds
    · exact .inr (.inl ⟨_, _, rfl, rfl, h.symm⟩)
    · exact .inl ⟨_, _, rfl, rfl, h.symm⟩
  | exit pid =>
    simp only [happen, Option.ite_none_right_eq_some, Option.some.injEq] at h
    exact .inr (.inr (.inl ⟨pid, h.1, h.2.symm⟩))
  | reap pid =>
    cases hp : w.place <;>
      simp only [happen, hp, reduceCtorEq, Option.ite_none_right_eq_some, Option.some.injEq] at h
    · exact .inr (.inr (.inr (.inl ⟨pid, rfl, h.1, h.2.symm⟩)))
    · exact .inr (.inr (.inr (.inl ⟨pid, rfl, h.1.2, h.2.symm⟩)))
  | noChild =>
    simp only [happen, Option.ite_none_right_eq_some, Option.some.injEq] at h
    obtain ⟨⟨hp, hr, hz⟩, rfl⟩ := h
    exact .inr (.inr (.inr (.inr (.inl ⟨hp, hr, hz, rfl⟩))))
  | signal =>
    cases hp : w.place with
    | waiting =>
      simp only [happen, hp, Option.ite_none_right_eq_some, Option.some.injEq] at h
      exact .inr (.inr (.inr (.inr (.inr ⟨rfl, h.2.symm⟩))))
    | waitingFor p again =>
      cases again <;>
        simp only [happen, hp, reduceCtorEq, Option.ite_none_right_eq_some, Option.some.injEq] at h
      exact .inr (.inr (.inr (.inr (.inr ⟨rfl, h.2.symm⟩))))
    | ready => simp [happen, hp] at h
    | died => simp [happen, hp] at h

section Log

variable {log : List Life} {e : Life}

theorem begun_snoc : begun (log ++ [e]) = begun log ++ begun [e] := List.filterMap_append

theorem alive_snoc : alive (log ++ [e]) = match e with
    | .started pid _ => pid :: alive log
    | .ended pid => (alive log).erase pid
    | _ => alive log := by
  rw [alive, List.foldl_append]
  rfl

theorem interruptions_snoc :
    interruptions (log ++ [e]) = interruptions log + if e = .interrupted then 1 else 0 := by
  rw [interruptions, List.countP_append, List.countP_singleton]
  simp only [decide_eq_true_eq]
  rfl

/-- At every moment that the log records at most one child runs, and one more for each
call that a signal has ended. -/
def FewAlive (log : List Life) : Prop :=
  ∀ before, before <+: log → (alive before).length ≤ interruptions before + 1

theorem FewAlive.snoc (h : FewAlive log)
    (he : (alive (log ++ [e])).length ≤ interruptions (log ++ [e]) + 1) :
    FewAlive (log ++ [e]) := by
  intro before hbefore
  rcases List.prefix_concat_iff.mp hbefore with rfl | hold
  · exact he
  · exact h before hold

end Log

/-- What every run keeps. -/
structure Family.Sound (program : List Action) (w : Family) : Prop where
  program_eq : begun w.log ++ w.todo = program
  running_eq : alive w.log = w.running
  children_le : w.children ≤ interruptions w.log + w.place.waits
  few : FewAlive w.log
  awaited : ∀ pid again, w.place = .waitingFor pid again → pid ∈ w.running ∨ pid ∈ w.zombies

section Steps

variable {program todo : List Action} {a : Action} {w w' : Family} {pid : Nat}

theorem Action.waits_place (a : Action) (pid : Nat) : (a.waits pid).waits = 1 := by
  cases a <;> rfl

theorem Family.sound_start (program : List Action) : (Family.start program).Sound program where
  program_eq := rfl
  running_eq := rfl
  children_le := Nat.le_refl 0
  few := by
    intro before hbefore
    rw [List.prefix_nil.mp hbefore]
    exact Nat.zero_le 1
  awaited pid again h := by cases h

theorem Family.sound_create (h : w.Sound program) (hp : w.place = .ready) (ht : w.todo = a :: todo) :
    (w.create a todo).Sound program := by
  have hle := h.children_le
  rw [hp] at hle
  have halive : alive (w.create a todo).log = w.fresh :: w.running := by
    rw [Family.create, alive_snoc, h.running_eq]
  have hint : interruptions (w.create a todo).log = interruptions w.log := by
    rw [Family.create, interruptions_snoc]
    rfl
  have hchildren : (w.create a todo).children = w.children + 1 := by
    simp only [Family.children, Family.create, List.length_cons]
    omega
  refine ⟨?_, halive, ?_, ?_, ?_⟩
  · rw [← h.program_eq, ht, Family.create, begun_snoc]
    exact List.append_cons _ _ _ |>.symm
  · rw [hchildren, hint]
    show _ ≤ _ + (a.waits w.fresh).waits
    rw [Action.waits_place]
    exact Nat.succ_le_succ hle
  · refine h.few.snoc ?_
    show (alive (w.create a todo).log).length ≤ interruptions (w.create a todo).log + 1
    rw [halive, hint, List.length_cons]
    have : w.running.length ≤ w.children := Nat.le_add_right _ _
    exact Nat.succ_le_succ (this.trans hle)
  · intro pid again hw
    left
    cases a with
    | status argv => cases hw
    | command =>
      obtain ⟨rfl, -⟩ := Place.waitingFor.inj hw
      exact List.mem_cons_self
    | exec =>
      obtain ⟨rfl, -⟩ := Place.waitingFor.inj hw
      exact List.mem_cons_self

theorem Family.sound_fail (h : w.Sound program) (hp : w.place = .ready) (ht : w.todo = a :: todo) :
    (w.fail a todo).Sound program := by
  have hle := h.children_le
  rw [hp] at hle
  have halive : alive (w.fail a todo).log = w.running := by
    rw [Family.fail, alive_snoc, h.running_eq]
  have hint : interruptions (w.fail a todo).log = interruptions w.log := by
    rw [Family.fail, interruptions_snoc]
    rfl
  refine ⟨?_, halive, ?_, ?_, ?_⟩
  · rw [← h.program_eq, ht, Family.fail, begun_snoc]
    exact List.append_cons _ _ _ |>.symm
  · rw [hint]
    exact Nat.le_trans hle (Nat.le_add_right _ _)
  · refine h.few.snoc ?_
    show (alive (w.fail a todo).log).length ≤ interruptions (w.fail a todo).log + 1
    rw [halive, hint]
    have : w.running.length ≤ w.children := Nat.le_add_right _ _
    exact Nat.le_succ_of_le (this.trans hle)
  · intro pid again hw
    cases a <;> cases hw

theorem Family.sound_exit (h : w.Sound program) (hpid : pid ∈ w.running) : (w.exit pid).Sound program := by
  have halive : alive (w.exit pid).log = w.running.erase pid := by
    rw [Family.exit, alive_snoc, h.running_eq]
  have hint : interruptions (w.exit pid).log = interruptions w.log := by
    rw [Family.exit, interruptions_snoc]
    rfl
  have hlen : (w.running.erase pid).length + 1 = w.running.length :=
    List.length_erase_add_one hpid
  refine ⟨?_, halive, ?_, ?_, ?_⟩
  · rw [← h.program_eq, Family.exit, begun_snoc]
    exact congrArg (· ++ w.todo) (List.append_nil _)
  · rw [hint]
    have hle := h.children_le
    simp only [Family.children, Family.exit, List.length_cons] at hle ⊢
    omega
  · refine h.few.snoc ?_
    show (alive (w.exit pid).log).length ≤ interruptions (w.exit pid).log + 1
    rw [halive, hint]
    have hfew := h.few w.log (List.prefix_refl _)
    rw [h.running_eq] at hfew
    omega
  · intro pid' again hw
    rcases h.awaited pid' again hw with hrun | hzombie
    · by_cases he : pid' = pid
      · exact .inr (he ▸ List.mem_cons_self)
      · exact .inl ((List.mem_erase_of_ne he).mpr hrun)
    · exact .inr (List.mem_cons_of_mem _ hzombie)

theorem Family.sound_reap (h : w.Sound program) (hw : w.place.waits = 1) (hpid : pid ∈ w.zombies) :
    (w.reap pid).Sound program where
  program_eq := h.program_eq
  running_eq := h.running_eq
  children_le := by
    have hle := h.children_le
    have hlen : (w.zombies.erase pid).length + 1 = w.zombies.length :=
      List.length_erase_add_one hpid
    rw [hw] at hle
    simp only [Family.children, Family.reap, Place.waits] at hle ⊢
    omega
  few := h.few
  awaited pid again hw := by cases hw

theorem Family.sound_noChild (h : w.Sound program) (hr : w.running = []) (hz : w.zombies = []) :
    Family.Sound program { w with place := .ready } where
  program_eq := h.program_eq
  running_eq := h.running_eq
  children_le := by
    simp only [Family.children, hr, hz]
    exact Nat.zero_le _
  few := h.few
  awaited pid again hw := by cases hw

theorem Family.sound_interrupt (h : w.Sound program) (hw : w.place.waits = 1) :
    w.interrupt.Sound program := by
  have halive : alive w.interrupt.log = w.running := by
    rw [Family.interrupt, alive_snoc, h.running_eq]
  have hint : interruptions w.interrupt.log = interruptions w.log + 1 := by
    rw [Family.interrupt, interruptions_snoc]
    rfl
  refine ⟨?_, halive, ?_, ?_, ?_⟩
  · rw [← h.program_eq, Family.interrupt, begun_snoc]
    exact congrArg (· ++ w.todo) (List.append_nil _)
  · have hle := h.children_le
    rw [hw] at hle
    rw [hint]
    exact hle
  · refine h.few.snoc ?_
    show (alive w.interrupt.log).length ≤ interruptions w.interrupt.log + 1
    rw [halive, hint]
    have hfew := h.few w.log (List.prefix_refl _)
    rw [h.running_eq] at hfew
    omega
  · intro pid again hw
    cases hw

theorem Family.sound_happen {s : Happening} (h : w.Sound program) (hs : happen w s = some w') :
    w'.Sound program := by
  rcases happen_cases hs with ⟨a, todo, hp, ht, rfl⟩ | ⟨a, todo, hp, ht, rfl⟩ | ⟨pid, hpid, rfl⟩ |
    ⟨pid, hw, hpid, rfl⟩ | ⟨-, hr, hz, rfl⟩ | ⟨hw, rfl⟩
  · exact Family.sound_create h hp ht
  · exact Family.sound_fail h hp ht
  · exact Family.sound_exit h hpid
  · exact Family.sound_reap h hw hpid
  · exact Family.sound_noChild h hr hz
  · exact Family.sound_interrupt h hw

theorem Family.sound_reached (h : Transition.Reaches happen (fun _ _ => True) (Family.start program) w) :
    w.Sound program :=
  h.invariant (Family.Sound program) (fun _ _ _ hw _ hs => Family.sound_happen hw hs) (Family.sound_start program)

/-- Every step brings the end of the program and of its children nearer. -/
def Family.rank (w : Family) : Nat :=
  4 * w.todo.length + 2 * w.running.length + w.zombies.length + w.place.waits

theorem rank_happen {s : Happening} (hs : happen w s = some w') : w'.rank < w.rank := by
  rcases happen_cases hs with ⟨a, todo, hp, ht, rfl⟩ | ⟨a, todo, hp, ht, rfl⟩ | ⟨pid, hpid, rfl⟩ |
    ⟨pid, hw, hpid, rfl⟩ | ⟨hw, hr, hz, rfl⟩ | ⟨hw, rfl⟩
  · have hplace : (w.create a todo).place.waits = 1 := a.waits_place w.fresh
    rw [Family.rank, hplace]
    simp only [Family.create, Family.rank, ht, List.length_cons]
    omega
  · have hplace : (w.fail a todo).place.waits ≤ 1 := by
      cases a <;> simp [Family.fail, Action.fails, Place.waits]
    simp only [Family.rank, Family.fail, ht, List.length_cons] at hplace ⊢
    omega
  · have hlen := List.length_erase_add_one hpid
    simp only [Family.rank, Family.exit, List.length_cons]
    omega
  · have hlen := List.length_erase_add_one hpid
    simp only [Family.rank, Family.reap, hw]
    simp only [Place.waits]
    omega
  · simp [Family.rank, Place.waits, hr, hz, hw]
  · simp only [Family.rank, Family.interrupt, hw]
    simp only [Place.waits]
    omega

theorem stuck_ended (h : w.Sound program) (hstuck : ∀ s, happen w s = none) :
    w.running = [] ∧ (w.place = .died ∨ w.place = .ready ∧ w.todo = []) := by
  have hrun : w.running = [] := by
    rw [List.eq_nil_iff_forall_not_mem]
    intro pid hpid
    have := hstuck (.exit pid)
    simp [happen, hpid] at this
  refine ⟨hrun, ?_⟩
  cases hp : w.place with
  | died => exact .inl rfl
  | ready =>
    cases ht : w.todo with
    | nil => exact .inr ⟨rfl, rfl⟩
    | cons a todo =>
      have := hstuck (.create true)
      simp [happen, hp, ht] at this
  | waiting =>
    cases hz : w.zombies with
    | nil =>
      have := hstuck .noChild
      simp [happen, hp, hrun, hz] at this
    | cons pid zombies =>
      have := hstuck (.reap pid)
      simp [happen, hp, hz] at this
  | waitingFor pid again =>
    have hzombie : pid ∈ w.zombies := by
      rcases h.awaited pid again hp with hmem | hmem
      · rw [hrun] at hmem
        cases hmem
      · exact hmem
    have := hstuck (.reap pid)
    simp [happen, hp, hzombie] at this

end Steps

def pollActions : Option Func → List Action
  | some .runCommand => [.command]
  | some .runExec => [.exec]
  | _ => []

/-- What an event of the main loop does that makes a child. -/
def eventActions (table : List Arg) : Event Outside Reading → List Action
  | .poll i _ _ => pollActions (table[i]?.bind Arg.func)
  | .dispatch _ argv => [.status argv]

def actions (table : List Arg) (events : List (Event Outside Reading)) : List Action :=
  events.flatMap (eventActions table)

def statuses (as : List Action) : List (List Bytes) :=
  as.filterMap (fun | .status argv => some argv | _ => none)

def dispatches (events : List (Event Outside Reading)) : List (List Bytes) :=
  events.filterMap (fun | .dispatch _ argv => some argv | .poll .. => none)

theorem statuses_pollActions (func : Option Func) : statuses (pollActions func) = [] := by
  unfold pollActions
  split <;> rfl

theorem statuses_actions (table : List Arg) (events : List (Event Outside Reading)) :
    statuses (actions table events) = dispatches events := by
  induction events with
  | nil => rfl
  | cons e events ih =>
    rw [actions, List.flatMap_cons, statuses, List.filterMap_append]
    change statuses (eventActions table e) ++ statuses (actions table events) = _
    rw [ih]
    cases e with
    | dispatch i argv => rfl
    | poll i input result =>
      rw [eventActions, statuses_pollActions]
      rfl

/-- The calls of the first `n` turns of the main loop that make a child. -/
def mainActions (c : Config) (env : Nat → Nat → Outside) (n : Nat) : List Action :=
  actions (c.modules.getD []) (runMain c env n).log

/-- The status commands are started in the order in which main sends them. No two children
run at a time and none is left while main polls a component, but for one more for each
`wait` or `waitpid` that a signal has ended. -/
theorem commands_serial (c : Config) (env : Nat → Nat → Outside) (n : Nat) {w : Family}
    (h : Transition.Reaches happen (fun _ _ => True) (Family.start (mainActions c env n)) w) :
    statuses (begun w.log) ++ statuses w.todo = dispatches (runMain c env n).log ∧
      FewAlive w.log ∧ (w.place = .ready → w.children ≤ interruptions w.log) := by
  have hsound := Family.sound_reached h
  refine ⟨?_, hsound.few, ?_⟩
  · have hsplit : statuses (begun w.log ++ w.todo) = statuses (begun w.log) ++ statuses w.todo :=
      List.filterMap_append
    rw [← hsplit, hsound.program_eq, mainActions, statuses_actions]
  · intro hp
    have hle := hsound.children_le
    rw [hp] at hle
    exact hle

def dateConfig : Config where
  numModules := 1
  modules := some [⟨some .runExec, some (lit "%s"), some (lit "date"), some (lit "1"), 1⟩]

def dateEnv : Nat → Nat → Outside := fun _ _ => { text := some (lit "noon") }

/-- A signal ends the `waitpid` of run_exec, and the `wait` of main then takes the child
that it left. -/
theorem commands_serial_interrupted :
    ∃ w, Transition.exec happen (Family.start (mainActions dateConfig dateEnv 1))
        [.create true, .signal, .create true, .exit 0, .reap 0] = some w ∧
      w.place = .ready ∧ w.running = [1] ∧ w.children ≤ interruptions w.log := by
  have hrun : ∃ w, Transition.exec happen (Family.start (mainActions dateConfig dateEnv 1))
      [.create true, .signal, .create true, .exit 0, .reap 0] = some w ∧
      w.place = .ready ∧ w.running = [1] := ⟨_, rfl, rfl, rfl⟩
  obtain ⟨w, hexec, hp, hr⟩ := hrun
  have hreach := Transition.reaches_of_exec (fun _ _ => trivial) hexec
  exact ⟨w, hexec, hp, hr, (commands_serial dateConfig dateEnv 1 hreach).2.2 hp⟩

/-- Every order of the steps comes to an end. Then no child runs, the zombies that are left
were left by signals, and all status commands have been started, unless a `posix_spawnp`
failed. -/
theorem commands_finish (c : Config) (env : Nat → Nat → Outside) (n : Nat)
    {steps : List Happening} {w : Family}
    (h : Transition.exec happen (Family.start (mainActions c env n)) steps = some w) :
    steps.length ≤ 4 * (mainActions c env n).length ∧
      ((∀ s, happen w s = none) → w.running = [] ∧ w.zombies.length ≤ interruptions w.log ∧
        (w.place = .died ∨ statuses (begun w.log) = dispatches (runMain c env n).log)) := by
  constructor
  · have hmeasure := Transition.exec_measure Family.rank (fun _ _ _ => rank_happen) h
    have hstart : (Family.start (mainActions c env n)).rank = 4 * (mainActions c env n).length := rfl
    omega
  · intro hstuck
    have hsound := Family.sound_reached (Transition.reaches_of_exec (fun _ _ => trivial) h)
    obtain ⟨hrun, hplace⟩ := stuck_ended hsound hstuck
    refine ⟨hrun, ?_, ?_⟩
    · have hle := hsound.children_le
      rw [Family.children, hrun, List.length_nil, Nat.zero_add] at hle
      rcases hplace with hp | ⟨hp, -⟩ <;> (rw [hp] at hle; exact hle)
    · rcases hplace with hdied | ⟨-, htodo⟩
      · exact .inl hdied
      · have hprogram := hsound.program_eq
        rw [htodo, List.append_nil] at hprogram
        exact .inr (by rw [hprogram, mainActions, statuses_actions])

theorem commands_finish_date :
    ∃ w, Transition.exec happen (Family.start (mainActions dateConfig dateEnv 1))
        [.create true, .exit 0, .reap 0, .create true, .exit 1, .reap 1] = some w ∧
      statuses (begun w.log) = dispatches (runMain dateConfig dateEnv 1).log := by
  have hrun : ∃ w, Transition.exec happen (Family.start (mainActions dateConfig dateEnv 1))
      [.create true, .exit 0, .reap 0, .create true, .exit 1, .reap 1] = some w ∧
      w = { Family.start [] with fresh := 2, log := w.log } := ⟨_, rfl, rfl⟩
  obtain ⟨w, hexec, hw⟩ := hrun
  have hstuck : ∀ s, happen w s = none := by
    rw [hw]
    intro s
    cases s <;> rfl
  obtain ⟨-, -, hdied | hall⟩ := (commands_finish dateConfig dateEnv 1 hexec).2 hstuck
  · rw [hw] at hdied
    cases hdied
  · exact ⟨w, hexec, hall⟩

end Slstatus
