import Slstatus.LockFile
import Slstatus.Signals

/-! main from its arguments to its exit: the lock, the options of arg.h, the loop, and the calls
that give the lock back. -/

namespace Slstatus

/-- The texts with which the options end the program. -/
inductive Quit
  | version
  | usage
  deriving DecidableEq

/-- The switch of main. `case '1'` sets `done` and falls through to `usage()`, and `die` does not
return. -/
def switchOption (c : UInt8) : Quit := if c = 118 then .version else .usage

/-- The letters of one argument, behind its minus sign. -/
def optionLoop : Bytes → Option Quit
  | [] => none
  | c :: _ => some (switchOption c)

/-- ARGBEGIN up to ARGEND: the arguments that are left. -/
def argBegin : List Bytes → Except Quit (List Bytes)
  | [] => .ok []
  | arg :: rest =>
    match arg with
    | 45 :: c :: cs =>
      if c = 45 ∧ cs = [] then .ok rest
      else
        match optionLoop (c :: cs) with
        | some q => .error q
        | none => argBegin rest
    | _ => .ok (arg :: rest)

def parseArgs (argv : List Bytes) : Except Quit Unit :=
  match argBegin argv.tail with
  | .error q => .error q
  | .ok [] => .ok ()
  | .ok (_ :: _) => .error .usage

/-- `F_SETLK` would succeed on the file that `open` gives. -/
def World.free (w : World) : Bool := w.path.all (fun i => (w.owner i).isNone)

/-- The end of a run: the exit code, the calls on the lock file and what the loop has done. -/
structure Ending where
  code : Nat
  calls : List Call
  quit : Option Quit := none
  log : List (Event Outside Reading) := []

/-- What main comes to in `n` turns of its loop, none while the loop goes on. -/
def mainEnding (c : Config) (env : Nat → Nat → Outside) (turns : Nat → Turn) (argv : List Bytes)
    (w : World) (n : Nat) : Except Fault (Option Ending) :=
  if ¬ w.free then .ok (some { code := 1, calls := [.open, .setLock] })
  else
    match parseArgs argv with
    | .error q => .ok (some { code := 1, calls := [.open, .setLock, .die], quit := some q })
    | .ok () =>
      let s := mainLoop c env turns n
      match s.run.fault with
      | some f => .error f
      | none =>
        .ok (if s.done then
          some { code := 0, calls := [.open, .setLock, .unLock, .close, .unlink], log := s.run.log }
        else none)

def Turn.ends (u : Turn) : Bool := u.pass.any (· ≠ .usr1) || u.sleep.any (· ≠ .usr1)

/-- The arguments with which main gets to its loop. -/
def Runs (argv : List Bytes) : Prop := argv.tail = [] ∨ argv.tail = [lit "--"]

section Arguments

variable {argv : List Bytes}

theorem argBegin_option {c : UInt8} {cs : Bytes} (rest : List Bytes) (h : ¬ (c = 45 ∧ cs = [])) :
    argBegin ((45 :: c :: cs) :: rest) = .error (switchOption c) := by
  simp only [argBegin, if_neg h, optionLoop]

theorem argBegin_word {arg : Bytes} (rest : List Bytes) (h : ∀ c cs, arg ≠ 45 :: c :: cs) :
    argBegin (arg :: rest) = .ok (arg :: rest) := by
  rw [argBegin]
  exact h

theorem argBegin_dashes (rest : List Bytes) : argBegin ([45, 45] :: rest) = .ok rest := by
  simp [argBegin]

theorem parseArgs_ok_iff : parseArgs argv = .ok () ↔ Runs argv := by
  have hdashes : lit "--" = [45, 45] := by decide
  rw [Runs, parseArgs, hdashes]
  cases argv.tail with
  | nil => simp [argBegin]
  | cons arg rest =>
    by_cases hoption : ∃ c cs, arg = 45 :: c :: cs
    · obtain ⟨c, cs, rfl⟩ := hoption
      by_cases hends : c = 45 ∧ cs = []
      · obtain ⟨rfl, rfl⟩ := hends
        rw [argBegin_dashes]
        cases rest <;> simp
      · rw [argBegin_option rest hends]
        simp only [reduceCtorEq, List.cons.injEq, true_and, false_or, false_iff]
        exact fun h => hends h.1
    · rw [argBegin_word rest (fun c cs heq => hoption ⟨c, cs, heq⟩)]
      simp only [reduceCtorEq, List.cons.injEq, false_or, false_iff]
      exact fun h => hoption ⟨_, _, h.1⟩

theorem switchOption_version_iff {c : UInt8} : switchOption c = .version ↔ c = 118 := by
  by_cases hc : c = 118
  · simp [switchOption, hc]
  · simp [switchOption, hc]

theorem parseArgs_version_iff :
    parseArgs argv = .error .version ↔ ∃ cs rest, argv.tail = (45 :: 118 :: cs) :: rest := by
  rw [parseArgs]
  cases argv.tail with
  | nil => simp [argBegin]
  | cons arg rest =>
    by_cases hoption : ∃ c cs, arg = 45 :: c :: cs
    · obtain ⟨c, cs, rfl⟩ := hoption
      by_cases hends : c = 45 ∧ cs = []
      · obtain ⟨rfl, rfl⟩ := hends
        rw [argBegin_dashes]
        cases rest <;> simp
      · rw [argBegin_option rest hends]
        simp only [Except.error.injEq, switchOption_version_iff, List.cons.injEq, true_and]
        constructor
        · intro hc
          exact ⟨cs, rest, ⟨hc, rfl⟩, rfl⟩
        · intro hex
          obtain ⟨-, -, ⟨hc, -⟩, -⟩ := hex
          exact hc
    · rw [argBegin_word rest (fun c cs heq => hoption ⟨c, cs, heq⟩)]
      simp only [Except.error.injEq, reduceCtorEq, List.cons.injEq, false_iff]
      intro hex
      obtain ⟨cs, -, harg, -⟩ := hex
      exact hoption ⟨_, cs, harg⟩

end Arguments

section Loop

variable {c : Config} {env : Nat → Nat → Outside} {turns : Nat → Turn} {n k : Nat}

theorem handle_eq (signals : List Signal) (done : Bool) :
    handle signals done = (done || signals.any (· ≠ .usr1)) := by
  induction signals generalizing done with
  | nil => simp [handle]
  | cons signo signals ih =>
    have hrest := ih (terminate signo done)
    rw [handle, List.foldl_cons]
    rw [handle] at hrest
    rw [hrest]
    cases signo <;> cases done <;> simp [terminate]

theorem turn_done (input : Nat → Outside) (u : Turn) {s : MainState} (h : s.done = false) :
    (turn c input u s).done = u.ends := by
  cases hpass : handle u.pass s.done with
  | true =>
    have hany := handle_eq u.pass s.done
    rw [hpass, h, Bool.false_or] at hany
    simp only [turn, hpass, if_true, Turn.ends, ← hany, Bool.true_or]
  | false =>
    have hany := handle_eq u.pass s.done
    rw [hpass, h, Bool.false_or] at hany
    simp only [turn, hpass, reduceCtorEq, if_false, Turn.ends, ← hany, handle_eq]

/-- The loop goes on for as long as neither INT nor TERM has come. -/
theorem going_iff : Going c env turns (n + 1) ↔ ∀ t < n, (turns t).ends = false := by
  constructor
  · intro h t ht
    have hbefore := h t (Nat.lt_succ_of_lt ht)
    have hdone := h (t + 1) (Nat.succ_lt_succ ht)
    rw [mainLoop_succ hbefore, turn_done _ _ hbefore] at hdone
    exact hdone
  · intro h t ht
    induction t with
    | zero => rfl
    | succ t ih =>
      have hbefore := ih (Nat.lt_of_succ_lt ht)
      rw [mainLoop_succ hbefore, turn_done _ _ hbefore]
      exact h t (Nat.lt_of_succ_lt_succ ht)

theorem mainLoop_first (hfirst : ∀ t < k, (turns t).ends = false) (hk : (turns k).ends = true) :
    (mainLoop c env turns (k + 1)).done = true ∧
      (mainLoop c env turns (k + 1)).run = runMain c env (k + 1) := by
  have hgoing : Going c env turns (k + 1) := going_iff.mpr hfirst
  have hbefore := hgoing k (Nat.lt_succ_self k)
  refine ⟨?_, mainLoop_run hgoing⟩
  rw [mainLoop_succ hbefore, turn_done _ _ hbefore, hk]

/-- After that turn main has left its loop. -/
theorem mainLoop_ended (hfirst : ∀ t < k, (turns t).ends = false) (hk : (turns k).ends = true)
    (hn : k < n) : mainLoop c env turns n = mainLoop c env turns (k + 1) := by
  induction hn with
  | refl => rfl
  | step _ ih =>
    rw [mainLoop, ih, (mainLoop_first hfirst hk).1]
    rfl

variable (c env turns) in
theorem mainLoop_cases (n : Nat) :
    ((∀ t < n, (turns t).ends = false) ∧ (mainLoop c env turns n).done = false ∧
      (mainLoop c env turns n).run = runMain c env n) ∨
    ∃ k < n, (∀ t < k, (turns t).ends = false) ∧ (turns k).ends = true ∧
      (mainLoop c env turns n).done = true ∧
      (mainLoop c env turns n).run = runMain c env (k + 1) := by
  by_cases hall : ∀ t < n, (turns t).ends = false
  · have hgoing : Going c env turns (n + 1) := going_iff.mpr hall
    exact .inl ⟨hall, hgoing n (Nat.lt_succ_self n),
      mainLoop_run (fun t ht => hgoing t (Nat.lt_succ_of_lt ht))⟩
  · have hex : ∃ k, k < n ∧ (turns k).ends = true := by simpa using hall
    have hspec := Nat.find_spec hex
    have hfirst : ∀ t < Nat.find hex, (turns t).ends = false := by
      intro t ht
      have hmin := Nat.find_min hex ht
      rw [not_and, Bool.not_eq_true] at hmin
      exact hmin (ht.trans hspec.1)
    refine .inr ⟨Nat.find hex, hspec.1, hfirst, hspec.2, ?_⟩
    rw [mainLoop_ended hfirst hspec.2 hspec.1]
    exact mainLoop_first hfirst hspec.2

end Loop

section World

variable {w : World} {p : Nat}

theorem sound_exec {steps : List (Nat × Call)} {w' : World} (hs : Sound w)
    (h : Transition.exec perform w steps = some w') : Sound w' :=
  (Transition.reaches_of_exec (fun _ _ => trivial) h).invariant Sound
    (fun _ _ _ hs _ hstep => sound_perform hs hstep) hs

theorem perform_open (hout : w.phase p = .outside) :
    ∃ i w', perform w (p, .open) = some w' ∧ w'.phase p = .opened i ∧ w'.path = some i ∧
      w'.owner = w.owner ∧ i = w.path.getD w.fresh := by
  cases hpath : w.path with
  | some i => exact ⟨i, w.setPhase p (.opened i), by simp [perform, hout, hpath], by simp, hpath, rfl, rfl⟩
  | none =>
    refine ⟨w.fresh,
      { w with path := some w.fresh, fresh := w.fresh + 1 }.setPhase p (.opened w.fresh),
      ?_, ?_, rfl, rfl, rfl⟩
    · simp [perform, hout, hpath]
    · simp

theorem owner_of_free (hs : Sound w) (hfree : w.free = true) :
    w.owner (w.path.getD w.fresh) = none := by
  cases hpath : w.path with
  | some i => simpa [World.free, hpath] using hfree
  | none =>
    cases ho : w.owner w.fresh with
    | none => exact ho
    | some q => exact absurd (hs.owner_lt q _ ho) (Nat.lt_irrefl _)

theorem exec_lock (hs : Sound w) (hout : w.phase p = .outside) (hfree : w.free = true) :
    ∃ i w', Transition.exec perform w [(p, .open), (p, .setLock)] = some w' ∧
      w'.phase p = .inside i ∧ w'.path = some i := by
  obtain ⟨i, w₁, hopen, hphase, hpath, howner, hi⟩ := perform_open hout
  have hnone : w₁.owner i = none := by
    rw [howner, hi]
    exact owner_of_free hs hfree
  have hlock : perform w₁ (p, .setLock) =
      some ((w₁.setOwner i (some p)).setPhase p (.inside i)) := by
    simp only [perform, hphase, hnone]
  refine ⟨i, (w₁.setOwner i (some p)).setPhase p (.inside i), ?_, ?_, hpath⟩
  · simp only [Transition.exec, hopen, hlock, Option.bind_some]
  · rw [setPhase_phase, if_pos rfl]

/-- The lock of another process ends the program, and the path stays. -/
theorem exec_refused (hout : w.phase p = .outside) (hfree : w.free = false) :
    ∃ w', Transition.exec perform w [(p, .open), (p, .setLock)] = some w' ∧
      w'.phase p = .exited ∧ w'.path ≠ none := by
  obtain ⟨i, w₁, hopen, hphase, hpath, howner, hi⟩ := perform_open hout
  obtain ⟨q, hq⟩ : ∃ q, w₁.owner i = some q := by
    rw [howner, hi]
    cases hpath' : w.path with
    | none => simp [World.free, hpath'] at hfree
    | some i =>
      simp only [World.free, hpath', Option.all_some, Option.isNone_eq_false_iff] at hfree
      exact Option.isSome_iff_exists.mp hfree
  have hlock : perform w₁ (p, .setLock) = some (w₁.setPhase p .exited) := by
    simp only [perform, hphase, hq]
  refine ⟨w₁.setPhase p .exited, ?_, ?_, ?_⟩
  · simp only [Transition.exec, hopen, hlock, Option.bind_some]
  · rw [setPhase_phase, if_pos rfl]
  · rw [setPhase_path, hpath]
    exact Option.some_ne_none _

theorem exec_die {i : Nat} (hin : w.phase p = .inside i) :
    ∃ w', Transition.exec perform w [(p, .die)] = some w' ∧ w'.phase p = .exited ∧
      w'.path = w.path := by
  refine ⟨(w.release p).setPhase p .exited, ?_, ?_, rfl⟩
  · simp only [Transition.exec, perform, hin, Option.bind_some]
  · rw [setPhase_phase, if_pos rfl]

theorem exec_leave {i : Nat} (hin : w.phase p = .inside i) :
    ∃ w', Transition.exec perform w [(p, .unLock), (p, .close), (p, .unlink)] = some w' ∧
      w'.phase p = .exited ∧ w'.path = none := by
  simp [Transition.exec, perform, hin]

end World

section Ending

variable {c : Config} {env : Nat → Nat → Outside} {turns : Nat → Turn} {argv : List Bytes}
  {w : World} {n : Nat} {e : Ending}

theorem mainEnding_none_iff : mainEnding c env turns argv w n = .ok none ↔
    w.free = true ∧ Runs argv ∧ (∀ t < n, (turns t).ends = false) ∧
      (runMain c env n).fault = none := by
  rw [← parseArgs_ok_iff]
  by_cases hfree : w.free = true
  · cases hparse : parseArgs argv with
    | error q => simp [mainEnding, hfree, hparse]
    | ok _ =>
      rcases mainLoop_cases c env turns n with ⟨hall, hdone, hrun⟩ | ⟨k, hk, -, hends, hdone, hrun⟩
      · cases hfault : (runMain c env n).fault with
        | none => simpa [mainEnding, hfree, hparse, hdone, hrun, hfault] using hall
        | some f => simp [mainEnding, hfree, hparse, hrun, hfault]
      · have hnot : ¬ ∀ t < n, (turns t).ends = false := by
          intro hall
          rw [hall k hk] at hends
          cases hends
        cases hfault : (runMain c env (k + 1)).fault with
        | none => simp [mainEnding, hfree, hparse, hdone, hrun, hfault, hnot]
        | some f => simp [mainEnding, hfree, hparse, hrun, hfault, hnot]
  · simp [mainEnding, hfree]

/-- The three ways in which main ends. -/
theorem mainEnding_cases (h : mainEnding c env turns argv w n = .ok (some e)) :
    (w.free = false ∧ e = { code := 1, calls := [.open, .setLock] }) ∨
    (w.free = true ∧ ∃ q, parseArgs argv = .error q ∧
      e = { code := 1, calls := [.open, .setLock, .die], quit := some q }) ∨
    (w.free = true ∧ Runs argv ∧ ∃ k < n, (∀ t < k, (turns t).ends = false) ∧
      (turns k).ends = true ∧ (runMain c env (k + 1)).fault = none ∧
      e = { code := 0, calls := [.open, .setLock, .unLock, .close, .unlink],
            log := (runMain c env (k + 1)).log }) := by
  cases hfree : w.free with
  | false =>
    simp only [mainEnding, hfree, reduceCtorEq, not_false_iff, if_true, Except.ok.injEq,
      Option.some.injEq] at h
    exact .inl ⟨rfl, h.symm⟩
  | true =>
    cases hparse : parseArgs argv with
    | error q =>
      simp only [mainEnding, hfree, hparse, not_true_eq_false, if_false, Except.ok.injEq,
        Option.some.injEq] at h
      exact .inr (.inl ⟨rfl, q, rfl, h.symm⟩)
    | ok _ =>
      refine .inr (.inr ⟨rfl, parseArgs_ok_iff.mp hparse, ?_⟩)
      simp only [mainEnding, hfree, hparse, not_true_eq_false, if_false] at h
      rcases mainLoop_cases c env turns n with ⟨-, hdone, hrun⟩ | ⟨k, hk, hfirst, hends, hdone, hrun⟩
      · cases hfault : (runMain c env n).fault <;> simp [hrun, hdone, hfault] at h
      · cases hfault : (runMain c env (k + 1)).fault with
        | none =>
          simp only [hrun, hdone, hfault, if_true, Except.ok.injEq, Option.some.injEq] at h
          exact ⟨k, hk, hfirst, hends, hfault, h.symm⟩
        | some f => simp [hrun, hfault] at h

theorem mainEnding_error {f : Fault} (h : mainEnding c env turns argv w n = .error f) :
    ∃ k ≤ n, (runMain c env k).fault = some f := by
  cases hfree : w.free with
  | false => simp [mainEnding, hfree] at h
  | true =>
    cases hparse : parseArgs argv with
    | error q => simp [mainEnding, hfree, hparse] at h
    | ok _ =>
      simp only [mainEnding, hfree, hparse, not_true_eq_false, if_false] at h
      rcases mainLoop_cases c env turns n with ⟨-, -, hrun⟩ | ⟨k, hk, -, -, -, hrun⟩
      · refine ⟨n, le_rfl, ?_⟩
        cases hfault : (runMain c env n).fault with
        | none => simp [hrun, hfault] at h
        | some f' => simpa [hrun, hfault] using h
      · refine ⟨k + 1, hk, ?_⟩
        cases hfault : (runMain c env (k + 1)).fault with
        | none => simp [hrun, hfault] at h
        | some f' => simpa [hrun, hfault] using h

end Ending

/-- TERM comes in the third turn. -/
def termInThird : Nat → Turn := fun t => if t = 2 then { sleep := [.usr1, .term] } else {}

end Slstatus
