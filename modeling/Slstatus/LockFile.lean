import Mathlib.Logic.Function.Basic
import Slstatus.Lib.Transition

/-! The lock file of main. Any number of processes with the same USER and DISPLAY
open, lock, unlock, close and unlink one path, each call being one atomic step, and
any of them can die in between. -/

namespace Slstatus

/-- Where a process stands between the calls, with the inode of its `lock_fd`. -/
inductive Phase
  | outside
  | opened (ino : Nat)
  | inside (ino : Nat)
  | unlocked (ino : Nat)
  | closed
  | exited
  deriving DecidableEq

/-- The file system as the processes see it: the inode that the path names, the
inode that a creation takes, and the process that has locked an inode. -/
structure World where
  path : Option Nat
  fresh : Nat
  owner : Nat → Option Nat
  phase : Nat → Phase

inductive Call
  | open | setLock | unLock | close | unlink | die
  deriving DecidableEq

def World.setPhase (w : World) (p : Nat) (ph : Phase) : World :=
  { w with phase := Function.update w.phase p ph }

def World.setOwner (w : World) (i : Nat) (o : Option Nat) : World :=
  { w with owner := Function.update w.owner i o }

def World.release (w : World) (p : Nat) : World :=
  { w with owner := fun i => if w.owner i = some p then none else w.owner i }

/-- One call of process `p`, `none` where the program does not make it. A failed
`F_SETLK` ends the process, and so does a death, which unlinks nothing. -/
def perform (w : World) (step : Nat × Call) : Option World :=
  let p := step.1
  match step.2, w.phase p with
  | .open, .outside =>
    match w.path with
    | some i => some (w.setPhase p (.opened i))
    | none => some ({ w with path := some w.fresh, fresh := w.fresh + 1 }.setPhase p (.opened w.fresh))
  | .setLock, .opened i =>
    match w.owner i with
    | none => some ((w.setOwner i (some p)).setPhase p (.inside i))
    | some _ => some (w.setPhase p .exited)
  | .unLock, .inside i => some ((w.setOwner i none).setPhase p (.unlocked i))
  | .close, .unlocked _ => some (w.setPhase p .closed)
  | .unlink, .closed => some ({ w with path := none }.setPhase p .exited)
  | .die, .outside => none
  | .die, .exited => none
  | .die, _ => some ((w.release p).setPhase p .exited)
  | _, _ => none

def start (stale : Bool) : World :=
  ⟨if stale then some 0 else none, 1, fun _ => none, fun _ => .outside⟩

def Exclusive (w : World) : Prop :=
  ∀ p q i j, w.phase p = .inside i → w.phase q = .inside j → p = q

/-- The lock that a process takes is on the inode that the path names, and the path
is not unlinked while a process is inside. -/
def Careful (w : World) (step : Nat × Call) : Prop :=
  match step.2 with
  | .setLock => ∀ i, w.phase step.1 = .opened i → w.owner i = none → w.path = some i
  | .unlink => w.phase step.1 = .closed → ∀ q i, w.phase q ≠ .inside i
  | _ => True

@[simp] theorem setPhase_phase (w : World) (p q : Nat) (ph : Phase) :
    (w.setPhase p ph).phase q = if q = p then ph else w.phase q := by
  simp only [World.setPhase, Function.update_apply]

@[simp] theorem setPhase_owner (w : World) (p : Nat) (ph : Phase) :
    (w.setPhase p ph).owner = w.owner := rfl

@[simp] theorem setPhase_path (w : World) (p : Nat) (ph : Phase) :
    (w.setPhase p ph).path = w.path := rfl

@[simp] theorem setPhase_fresh (w : World) (p : Nat) (ph : Phase) :
    (w.setPhase p ph).fresh = w.fresh := rfl

@[simp] theorem setOwner_owner (w : World) (i j : Nat) (o : Option Nat) :
    (w.setOwner i o).owner j = if j = i then o else w.owner j := by
  simp only [World.setOwner, Function.update_apply]

@[simp] theorem setOwner_phase (w : World) (i : Nat) (o : Option Nat) :
    (w.setOwner i o).phase = w.phase := rfl

@[simp] theorem setOwner_path (w : World) (i : Nat) (o : Option Nat) :
    (w.setOwner i o).path = w.path := rfl

@[simp] theorem setOwner_fresh (w : World) (i : Nat) (o : Option Nat) :
    (w.setOwner i o).fresh = w.fresh := rfl

@[simp] theorem release_owner (w : World) (p i : Nat) :
    (w.release p).owner i = if w.owner i = some p then none else w.owner i := rfl

@[simp] theorem release_phase (w : World) (p : Nat) : (w.release p).phase = w.phase := rfl

@[simp] theorem release_path (w : World) (p : Nat) : (w.release p).path = w.path := rfl

@[simp] theorem release_fresh (w : World) (p : Nat) : (w.release p).fresh = w.fresh := rfl

theorem perform_cases {w w' : World} {p : Nat} {c : Call} (h : perform w (p, c) = some w') :
    (∃ i, w.phase p = .outside ∧ w.path = some i ∧ w' = w.setPhase p (.opened i)) ∨
    (w.phase p = .outside ∧ w.path = none ∧
      w' = { w with path := some w.fresh, fresh := w.fresh + 1 }.setPhase p (.opened w.fresh)) ∨
    (∃ i, c = .setLock ∧ w.phase p = .opened i ∧ w.owner i = none ∧
      w' = (w.setOwner i (some p)).setPhase p (.inside i)) ∨
    (∃ i q, w.phase p = .opened i ∧ w.owner i = some q ∧ w' = w.setPhase p .exited) ∨
    (∃ i, w.phase p = .inside i ∧ w' = (w.setOwner i none).setPhase p (.unlocked i)) ∨
    (∃ i, w.phase p = .unlocked i ∧ w' = w.setPhase p .closed) ∨
    (c = .unlink ∧ w.phase p = .closed ∧ w' = { w with path := none }.setPhase p .exited) ∨
    (w.phase p ≠ .outside ∧ w.phase p ≠ .exited ∧ w' = (w.release p).setPhase p .exited) := by
  cases c with
  | «open» =>
    cases hp : w.phase p <;> simp only [perform, hp, reduceCtorEq] at h
    cases hpath : w.path <;> simp only [hpath, Option.some.injEq] at h <;> simp [← h]
  | setLock =>
    cases hp : w.phase p <;> simp only [perform, hp, reduceCtorEq] at h
    rename_i i
    cases ho : w.owner i <;> simp only [ho, Option.some.injEq] at h <;> simp [← h, ho]
  | unLock =>
    cases hp : w.phase p <;> simp only [perform, hp, reduceCtorEq, Option.some.injEq] at h
    simp [← h]
  | close =>
    cases hp : w.phase p <;> simp only [perform, hp, reduceCtorEq, Option.some.injEq] at h
    simp [← h]
  | unlink =>
    cases hp : w.phase p <;> simp only [perform, hp, reduceCtorEq, Option.some.injEq] at h
    simp [← h]
  | die =>
    cases hp : w.phase p <;> simp only [perform, hp, reduceCtorEq, Option.some.injEq] at h
    all_goals simp [← h]

/-- What every run keeps: an open descriptor names an inode that exists, and the
lock on an inode belongs to the process that is inside through it. -/
structure Sound (w : World) : Prop where
  path_lt : ∀ i, w.path = some i → i < w.fresh
  opened_lt : ∀ p i, w.phase p = .opened i → i < w.fresh
  owner_iff : ∀ p i, w.owner i = some p ↔ w.phase p = .inside i
  owner_lt : ∀ p i, w.owner i = some p → i < w.fresh

def Placed (w : World) : Prop := ∀ p i, w.phase p = .inside i → w.path = some i

theorem sound_start (stale : Bool) : Sound (start stale) := by
  constructor <;> cases stale <;> simp [start]

theorem opened_lt_setPhase {w : World} {p n : Nat} {ph : Phase}
    (hlt : ∀ q i, w.phase q = .opened i → i < n) (hph : ∀ i, ph = .opened i → i < n) (q i : Nat)
    (hq : (w.setPhase p ph).phase q = .opened i) : i < n := by
  rw [setPhase_phase] at hq
  by_cases he : q = p
  · rw [if_pos he] at hq
    exact hph i hq
  · rw [if_neg he] at hq
    exact hlt q i hq

theorem sound_setPhase {w : World} {p : Nat} {ph : Phase} (hs : Sound w)
    (hp : ∀ i, w.phase p ≠ .inside i) (hph : ∀ i, ph ≠ .inside i)
    (hlt : ∀ i, ph = .opened i → i < w.fresh) : Sound (w.setPhase p ph) where
  path_lt := hs.path_lt
  opened_lt := opened_lt_setPhase hs.opened_lt hlt
  owner_iff q i := by
    by_cases he : q = p
    · subst he
      have hno : w.owner i ≠ some q := fun ho => hp i ((hs.owner_iff q i).mp ho)
      have hout : ph ≠ .inside i := hph i
      simp [hno, hout]
    · have hq := hs.owner_iff q i
      simpa [he] using hq
  owner_lt := hs.owner_lt

theorem sound_create {w : World} (hs : Sound w) :
    Sound { w with path := some w.fresh, fresh := w.fresh + 1 } where
  path_lt i hi := by
    have hi' : w.fresh = i := Option.some.inj hi
    show i < w.fresh + 1
    omega
  opened_lt p i hp := Nat.lt_succ_of_lt (hs.opened_lt p i hp)
  owner_iff := hs.owner_iff
  owner_lt p i ho := Nat.lt_succ_of_lt (hs.owner_lt p i ho)

theorem sound_lock {w : World} {p i : Nat} (hs : Sound w) (hp : w.phase p = .opened i)
    (ho : w.owner i = none) : Sound ((w.setOwner i (some p)).setPhase p (.inside i)) where
  path_lt := hs.path_lt
  opened_lt := opened_lt_setPhase hs.opened_lt (by simp)
  owner_iff q j := by
    have hq := hs.owner_iff q j
    by_cases he : q = p
    · subst he
      rw [hp] at hq
      by_cases hj : j = i
      · simp [hj]
      · have hno : w.owner j ≠ some q := fun h => by simp [hq] at h
        have hij : i ≠ j := Ne.symm hj
        simp [hj, hno, hij]
    · by_cases hj : j = i
      · subst hj
        have hno : w.phase q ≠ .inside j := fun h => by simp [ho, h] at hq
        have hpq : p ≠ q := Ne.symm he
        simp [he, hno, hpq]
      · simpa [he, hj] using hq
  owner_lt q j hq := by
    have hlt := hs.opened_lt p i hp
    by_cases hj : j = i
    · exact hj ▸ hlt
    · have hown : w.owner j = some q := by simpa [hj] using hq
      exact hs.owner_lt q j hown

theorem sound_unlock {w : World} {p i : Nat} (hs : Sound w) (hp : w.phase p = .inside i) :
    Sound ((w.setOwner i none).setPhase p (.unlocked i)) where
  path_lt := hs.path_lt
  opened_lt := opened_lt_setPhase hs.opened_lt (by simp)
  owner_iff q j := by
    have hown := (hs.owner_iff p i).mpr hp
    have hq := hs.owner_iff q j
    by_cases hj : j = i
    · subst hj
      by_cases he : q = p
      · simp [he]
      · have hno : w.phase q ≠ .inside j := fun h => by
          rw [hq.mpr h] at hown
          exact he (Option.some.inj hown)
        simp [he, hno]
    · by_cases he : q = p
      · subst he
        have hno : w.owner j ≠ some q := fun h => by
          rw [hq.mp h] at hp
          exact hj (Phase.inside.inj hp)
        simp [hj, hno]
      · simpa [hj, he] using hq
  owner_lt q j hq := by
    by_cases hj : j = i
    · simp [hj] at hq
    · have hown : w.owner j = some q := by simpa [hj] using hq
      exact hs.owner_lt q j hown

theorem sound_die {w : World} {p : Nat} (hs : Sound w) :
    Sound ((w.release p).setPhase p .exited) where
  path_lt := hs.path_lt
  opened_lt := opened_lt_setPhase hs.opened_lt (by simp)
  owner_iff q j := by
    have hq := hs.owner_iff q j
    by_cases hown : w.owner j = some p
    · by_cases he : q = p
      · simp [he, hown]
      · have hno : w.phase q ≠ .inside j := fun h => by
          rw [hown] at hq
          exact he (Option.some.inj (hq.mpr h)).symm
        simp [he, hown, hno]
    · by_cases he : q = p
      · simp [he, hown]
      · simpa [he, hown] using hq
  owner_lt q j hq := by
    by_cases hown : w.owner j = some p
    · simp [hown] at hq
    · have hown' : w.owner j = some q := by simpa [hown] using hq
      exact hs.owner_lt q j hown'

theorem sound_perform {w w' : World} {step : Nat × Call} (hs : Sound w)
    (h : perform w step = some w') : Sound w' := by
  obtain ⟨p, c⟩ := step
  rcases perform_cases h with ⟨i, hp, hi, rfl⟩ | ⟨hp, -, rfl⟩ | ⟨i, -, hp, ho, rfl⟩ |
    ⟨i, q, hp, -, rfl⟩ | ⟨i, hp, rfl⟩ | ⟨i, hp, rfl⟩ | ⟨-, hp, rfl⟩ | ⟨-, -, rfl⟩
  · have hlt : ∀ j, Phase.opened i = .opened j → j < w.fresh := by
      intro j hj
      cases hj
      exact hs.path_lt i hi
    exact sound_setPhase hs (by simp [hp]) (by simp) hlt
  · have hlt : ∀ j, Phase.opened w.fresh = .opened j → j < w.fresh + 1 := by
      intro j hj
      cases hj
      exact Nat.lt_succ_self _
    exact sound_setPhase (sound_create hs) (by simp [hp]) (by simp) hlt
  · exact sound_lock hs hp ho
  · exact sound_setPhase hs (by simp [hp]) (by simp) (by simp)
  · exact sound_unlock hs hp
  · exact sound_setPhase hs (by simp [hp]) (by simp) (by simp)
  · have hunlink : Sound { w with path := none } :=
      ⟨by simp, hs.opened_lt, hs.owner_iff, hs.owner_lt⟩
    exact sound_setPhase hunlink (by simp [hp]) (by simp) (by simp)
  · exact sound_die hs

theorem placed_perform {w w' : World} {step : Nat × Call} (hp : Placed w) (hc : Careful w step)
    (h : perform w step = some w') : Placed w' := by
  obtain ⟨p, c⟩ := step
  intro q j hq
  rcases perform_cases h with ⟨i, -, -, rfl⟩ | ⟨-, hnone, rfl⟩ | ⟨i, rfl, hopen, ho, rfl⟩ |
    ⟨i, r, -, -, rfl⟩ | ⟨i, -, rfl⟩ | ⟨i, -, rfl⟩ | ⟨rfl, hclosed, rfl⟩ | ⟨-, -, rfl⟩
  all_goals by_cases he : q = p
  all_goals simp [he] at hq
  · exact hp q j hq
  · simp [hp q j hq] at hnone
  · subst hq
    exact hc i hopen ho
  · exact hp q j hq
  · exact hp q j hq
  · exact hp q j hq
  · exact hp q j hq
  · exact absurd hq (hc hclosed q j)
  · exact hp q j hq

theorem exclusive_of_placed {w : World} (hs : Sound w) (hp : Placed w) : Exclusive w := by
  intro p q i j hi hj
  obtain rfl : i = j := Option.some.inj ((hp p i hi).symm.trans (hp q j hj))
  have ho := (hs.owner_iff p i).mpr hi
  rw [(hs.owner_iff q i).mpr hj] at ho
  exact (Option.some.inj ho).symm

/-- In a run whose processes lock only the inode that the path names, and unlink the
path only while no process is inside, at most one process is inside. -/
theorem exclusive_of_careful (stale : Bool) {w : World}
    (h : Transition.Reaches perform Careful (start stale) w) : Exclusive w := by
  have hplaced : Placed (start stale) := by simp [Placed, start]
  have hstep : ∀ w step w', Sound w ∧ Placed w → Careful w step → perform w step = some w' →
      Sound w' ∧ Placed w' := by
    intro w step w' hw hc hnext
    exact ⟨sound_perform hw.1 hnext, placed_perform hw.2 hc hnext⟩
  have hinv := h.invariant (fun w => Sound w ∧ Placed w) hstep ⟨sound_start stale, hplaced⟩
  exact exclusive_of_placed hinv.1 hinv.2

theorem exclusive_of_careful_pair :
    ∃ w, Transition.exec perform (start true) [(0, .open), (1, .open), (0, .setLock), (1, .setLock)] =
        some w ∧ w.phase 0 = .inside 0 ∧ Exclusive w := by
  refine ⟨_, rfl, rfl, exclusive_of_careful true ?_⟩
  refine .head ⟨(0, .open), trivial, rfl⟩ (.head ⟨(1, .open), trivial, rfl⟩ (.head
    ⟨(0, .setLock), fun i hi _ => ?_, rfl⟩ (.head ⟨(1, .setLock), fun i hi ho => ?_, rfl⟩ .refl)))
  · exact congrArg some (Phase.opened.inj hi)
  · obtain rfl : 0 = i := Phase.opened.inj hi
    exact absurd ho (by decide)

theorem not_exclusive_after_unlink :
    ¬ ∀ stale w, Transition.Reaches perform (fun _ _ => True) (start stale) w → Exclusive w := by
  intro h
  have hrun : ∃ w, Transition.exec perform (start false) [(0, .open), (0, .setLock), (1, .open),
      (0, .unLock), (0, .close), (0, .unlink), (1, .setLock), (2, .open), (2, .setLock)] = some w ∧
      w.phase 1 = .inside 1 ∧ w.phase 2 = .inside 2 := ⟨_, rfl, rfl, rfl⟩
  obtain ⟨w, hexec, h₁, h₂⟩ := hrun
  have hreach := Transition.reaches_of_exec (fun _ _ => trivial) hexec
  exact absurd (h false w hreach 1 2 1 2 h₁ h₂) (by decide)

theorem second_enters {w : World} {r q i : Nat} (hs : Sound w) (hr : w.phase r = .inside i)
    (hq : w.phase q = .outside) (hfree : ∀ j, w.path = some j → w.owner j = none) :
    ∃ w', Transition.Reaches perform (fun _ _ => True) w w' ∧ ¬ Exclusive w' := by
  have hne : r ≠ q := fun he => by simp [← he, hr] at hq
  cases hpath : w.path with
  | some j =>
    let w₁ := w.setPhase q (.opened j)
    have hrun : Transition.exec perform w [(q, .open), (q, .setLock)] =
        some ((w₁.setOwner j (some q)).setPhase q (.inside j)) := by
      simp [Transition.exec, perform, hq, hpath, hfree j hpath, w₁]
    refine ⟨_, Transition.reaches_of_exec (by simp) hrun, fun hex => hne ?_⟩
    have hr' : ((w₁.setOwner j (some q)).setPhase q (.inside j)).phase r = .inside i := by
      simp [hr, hne, w₁]
    exact hex r q i j hr' (by simp)
  | none =>
    have hnew : w.owner w.fresh = none := by
      cases ho : w.owner w.fresh with
      | none => rfl
      | some p => exact absurd (hs.owner_lt p _ ho) (Nat.lt_irrefl _)
    let w₁ := { w with path := some w.fresh, fresh := w.fresh + 1 }.setPhase q (.opened w.fresh)
    have hrun : Transition.exec perform w [(q, .open), (q, .setLock)] =
        some ((w₁.setOwner w.fresh (some q)).setPhase q (.inside w.fresh)) := by
      simp [Transition.exec, perform, hq, hpath, hnew, w₁]
    refine ⟨_, Transition.reaches_of_exec (by simp) hrun, fun hex => hne ?_⟩
    have hr' : ((w₁.setOwner w.fresh (some q)).setPhase q (.inside w.fresh)).phase r = .inside i := by
      simp [hr, hne, w₁]
    exact hex r q i w.fresh hr' (by simp)

/-- The condition on a step cannot be dropped: after a step that breaks it, a process
that has not started yet is enough to have two of them inside. -/
theorem careless_breaks {w w' : World} {step : Nat × Call} {q : Nat} (hs : Sound w)
    (hbad : ¬ Careful w step) (h : perform w step = some w') (hq : w.phase q = .outside) :
    ∃ w'', Transition.Reaches perform (fun _ _ => True) w' w'' ∧ ¬ Exclusive w'' := by
  have hs' := sound_perform hs h
  obtain ⟨p, c⟩ := step
  cases c with
  | setLock =>
    simp only [Careful, not_forall] at hbad
    obtain ⟨i, hp, ho, hpath⟩ := hbad
    have hne : q ≠ p := fun he => by simp [he, hp] at hq
    obtain rfl : (w.setOwner i (some p)).setPhase p (.inside i) = w' := by
      simpa [perform, hp, ho] using h
    have hstill : ((w.setOwner i (some p)).setPhase p (.inside i)).phase q = .outside := by
      simp [hne, hq]
    by_cases hfree : ∀ j, w.path = some j → w.owner j = none
    · apply second_enters (r := p) (i := i) hs' (by simp) hstill
      intro j hj
      have hji : j ≠ i := fun he => hpath (he ▸ hj)
      simpa [hji] using hfree j hj
    · simp only [not_forall] at hfree
      obtain ⟨j, -, hj⟩ := hfree
      obtain ⟨r, hr⟩ := Option.ne_none_iff_exists'.mp hj
      have hin := (hs.owner_iff r j).mp hr
      have hrp : r ≠ p := fun he => by simp [he, hp] at hin
      refine ⟨_, .refl, fun hex => hrp ?_⟩
      have hin' : ((w.setOwner i (some p)).setPhase p (.inside i)).phase r = .inside j := by
        simp [hrp, hin]
      exact hex r p j i hin' (by simp)
  | unlink =>
    simp only [Careful, not_forall, not_not] at hbad
    obtain ⟨hp, r, i, hr⟩ := hbad
    have hne : q ≠ p := fun he => by simp [he, hp] at hq
    have hrp : r ≠ p := fun he => by simp [he, hp] at hr
    obtain rfl : { w with path := none }.setPhase p .exited = w' := by
      simpa [perform, hp] using h
    have hr' : ({ w with path := none }.setPhase p .exited).phase r = .inside i := by
      simp [hrp, hr]
    have hq' : ({ w with path := none }.setPhase p .exited).phase q = .outside := by
      simp [hne, hq]
    exact second_enters hs' hr' hq' (by simp)
  | _ => simp [Careful] at hbad

end Slstatus
