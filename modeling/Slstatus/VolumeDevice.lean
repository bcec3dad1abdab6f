import Slstatus.FmtHuman
import Slstatus.VolumeControls

/-! The connection of `vol_perc` to sndio over many calls: it is opened when there is none,
and closed again when opening it fails half way or the server hangs up. -/

namespace Slstatus

/-- What one call of `vol_perc` finds. The callbacks are those that sndio makes from
`sioctl_ondesc`, `sioctl_onval` and `sioctl_revents`; `ready` says that there was something
to poll for and that `poll` found it. -/
structure SndioInput where
  opens : Bool := true
  descs : List Callback := []
  setsOndesc : Bool := true
  vals : List Callback := []
  setsOnval : Bool := true
  allocates : Bool := true
  ready : Bool := false
  events : List Callback := []
  hup : Bool := false

/-- The static variables. A handle and an array for `poll` are numbered as they are
acquired, and `released` lists what has been closed or freed. -/
structure SndioStatics where
  initialized : Bool := false
  hdl : Option Nat := none
  pfds : Option Nat := none
  controls : List Control := []
  fresh : Nat := 0
  released : List Nat := []

namespace SndioStatics

def cleanup (s : SndioStatics) : SndioStatics :=
  { s with
    hdl := none
    pfds := none
    controls := []
    released := s.released ++ s.hdl.toList ++ s.pfds.toList }

def callbacks (s : SndioStatics) (calls : List Callback) : SndioStatics :=
  { s with controls := calls.foldl Callback.apply s.controls }

/-- `init`, with its result. -/
def init (x : SndioInput) (s : SndioStatics) : Bool × SndioStatics :=
  if x.opens then
    let s := { s with hdl := some s.fresh, fresh := s.fresh + 1 }
    let s := s.callbacks x.descs
    if x.setsOndesc then
      let s := s.callbacks x.vals
      if x.setsOnval then
        if x.allocates then (true, { s with pfds := some s.fresh, fresh := s.fresh + 1 })
        else (false, { s with pfds := none }.cleanup)
      else (false, s.cleanup)
    else (false, s.cleanup)
  else (false, { s with hdl := none }.cleanup)

end SndioStatics

def volPerc (x : SndioInput) (s : SndioStatics) : Except Fault (Option Bytes × SndioStatics) :=
  let s := if s.initialized then s else { (s.init x).2 with initialized := (s.init x).1 }
  if s.hdl = none then .ok (none, s)
  else
    let s := if x.ready then s.callbacks x.events else s
    if x.ready ∧ x.hup then .ok (none, { s.cleanup with initialized := false })
    else
      match volumeLoop s.controls 100 with
      | .error f => .error f
      | .ok value => .ok (bprintf (decimalInt value), s)

/-- The results of a run of calls, up to a fault, and the state after it. -/
def volRun (s : SndioStatics) : List SndioInput → Except Fault (List (Option Bytes) × SndioStatics)
  | [] => .ok ([], s)
  | x :: xs =>
    match volPerc x s with
    | .error f => .error f
    | .ok (r, s) => (volRun s xs).map (fun out => (r :: out.1, out.2))

/-- A connection is the history of its callbacks. -/
abbrev Session := Option (List Callback)

def SndioInput.Connects (x : SndioInput) : Prop :=
  x.opens ∧ x.setsOndesc ∧ x.setsOnval ∧ x.allocates

instance (x : SndioInput) : Decidable x.Connects := inferInstanceAs (Decidable (_ ∧ _))

def sessionText (calls : List Callback) : Except Fault (Option Bytes) :=
  (volumeLoop (controlsAfter calls) 100).map (fun value => bprintf (decimalInt value))

def Session.connected (x : SndioInput) : Session → Session
  | some calls => some calls
  | none => if x.Connects then some (x.descs ++ x.vals) else none

/-- What a call shows, and the session after it. -/
def Session.call (x : SndioInput) (h : Session) : Except Fault (Option Bytes × Session) :=
  match h.connected x with
  | none => .ok (none, none)
  | some calls =>
    if x.ready ∧ x.hup then .ok (none, none)
    else
      let calls := if x.ready then calls ++ x.events else calls
      (sessionText calls).map (fun text => (text, some calls))

def sessionRun (h : Session) : List SndioInput → Except Fault (List (Option Bytes) × Session)
  | [] => .ok ([], h)
  | x :: xs =>
    match h.call x with
    | .error f => .error f
    | .ok (r, h) => (sessionRun h xs).map (fun out => (r :: out.1, out.2))

/-- Everything acquired has been released once, or is still held. -/
def SndioStatics.Balanced (s : SndioStatics) : Prop :=
  (s.released ++ s.hdl.toList ++ s.pfds.toList).Perm (List.range s.fresh)

/-- What holds between two calls: the variables agree on whether there is a connection. -/
structure SndioStatics.Kept (s : SndioStatics) : Prop where
  hdl : s.initialized = true ↔ s.hdl ≠ none
  pfds : s.initialized = true ↔ s.pfds ≠ none
  controls : s.initialized = false → s.controls = []
  resources : s.Balanced

structure SndioStatics.Simulates (s : SndioStatics) (h : Session) : Prop where
  kept : s.Kept
  session : s.initialized = h.isSome
  controls : s.controls = controlsAfter (h.getD [])

theorem controlsAfter_append (calls calls' : List Callback) :
    controlsAfter (calls ++ calls') = calls'.foldl Callback.apply (controlsAfter calls) :=
  List.foldl_append

section Session

variable {s : SndioStatics} {h : Session} {x : SndioInput}

theorem simulates_cleanup (hs : s.Balanced) :
    SndioStatics.Simulates { s.cleanup with initialized := false } none where
  kept := by
    refine ⟨by simp [SndioStatics.cleanup], by simp [SndioStatics.cleanup], fun _ => rfl, ?_⟩
    simpa [SndioStatics.cleanup, SndioStatics.Balanced] using hs
  session := rfl
  controls := rfl

/-- A handle is acquired while none is held. -/
theorem balanced_opened (hs : s.Balanced) (hhdl : s.hdl = none) (hpfds : s.pfds = none) :
    SndioStatics.Balanced { s with hdl := some s.fresh, fresh := s.fresh + 1 } := by
  simp only [SndioStatics.Balanced, hhdl, hpfds, Option.toList_none, List.append_nil,
    Option.toList_some, List.range_succ] at hs ⊢
  exact hs.append_right _

theorem balanced_allocated (hs : s.Balanced) (hpfds : s.pfds = none) :
    SndioStatics.Balanced { s with pfds := some s.fresh, fresh := s.fresh + 1 } := by
  simp only [SndioStatics.Balanced, hpfds, Option.toList_none, List.append_nil,
    Option.toList_some, List.range_succ] at hs ⊢
  exact hs.append_right _

theorem simulates_init (hs : s.Simulates none) (x : SndioInput) :
    SndioStatics.Simulates { (s.init x).2 with initialized := (s.init x).1 }
      (Session.connected x none) := by
  have hdown : s.initialized = false := hs.session
  have hhdl : s.hdl = none := by
    by_contra hne
    rw [hs.kept.hdl.mpr hne] at hdown
    cases hdown
  have hpfds : s.pfds = none := by
    by_contra hne
    rw [hs.kept.pfds.mpr hne] at hdown
    cases hdown
  have hbalanced : s.Balanced := hs.kept.resources
  have hopened := balanced_opened hbalanced hhdl hpfds
  have hcontrols : s.controls = controlsAfter [] := hs.controls
  by_cases hopens : x.opens
  · by_cases hondesc : x.setsOndesc
    · by_cases honval : x.setsOnval
      · by_cases hallocates : x.allocates
        · have hconnects : x.Connects := ⟨hopens, hondesc, honval, hallocates⟩
          simp only [SndioStatics.init, if_pos hopens, if_pos hondesc, if_pos honval,
            if_pos hallocates, Session.connected, if_pos hconnects]
          refine ⟨⟨by simp [SndioStatics.callbacks], by simp, by simp, ?_⟩, rfl, ?_⟩
          · exact balanced_allocated (s := { s with hdl := some s.fresh, fresh := s.fresh + 1 })
              hopened hpfds
          · simp only [SndioStatics.callbacks, hcontrols, Option.getD_some, controlsAfter_append]
            rfl
        · have hnot : ¬ x.Connects := fun h => hallocates h.2.2.2
          simp only [SndioStatics.init, if_pos hopens, if_pos hondesc, if_pos honval,
            if_neg hallocates, Session.connected, if_neg hnot]
          refine simulates_cleanup ?_
          simpa only [SndioStatics.callbacks, SndioStatics.Balanced, hpfds] using hopened
      · have hnot : ¬ x.Connects := fun h => honval h.2.2.1
        simp only [SndioStatics.init, if_pos hopens, if_pos hondesc, if_neg honval,
          Session.connected, if_neg hnot]
        exact simulates_cleanup hopened
    · have hnot : ¬ x.Connects := fun h => hondesc h.2.1
      simp only [SndioStatics.init, if_pos hopens, if_neg hondesc, Session.connected, if_neg hnot]
      exact simulates_cleanup hopened
  · have hnot : ¬ x.Connects := fun h => hopens h.1
    simp only [SndioStatics.init, if_neg hopens, Session.connected, if_neg hnot]
    refine simulates_cleanup ?_
    simpa only [SndioStatics.Balanced, hhdl] using hbalanced

theorem simulates_callbacks {calls : List Callback} (hs : s.Simulates (some calls))
    (more : List Callback) : (s.callbacks more).Simulates (some (calls ++ more)) where
  kept := by
    refine ⟨hs.kept.hdl, hs.kept.pfds, ?_, hs.kept.resources⟩
    intro hdown
    cases hs.session.symm.trans hdown
  session := hs.session
  controls := by
    rw [SndioStatics.callbacks, Option.getD_some, controlsAfter_append]
    rw [hs.controls]
    rfl

/-- One call shows what the session shows, and leaves a state of the session that the call
leaves. -/
theorem volPerc_simulates (hs : s.Simulates h) (x : SndioInput) :
    (∃ f, volPerc x s = .error f ∧ h.call x = .error f) ∨
    ∃ r s' h', volPerc x s = .ok (r, s') ∧ h.call x = .ok (r, h') ∧ s'.Simulates h' := by
  have hconn : SndioStatics.Simulates
      (if s.initialized then s else { (s.init x).2 with initialized := (s.init x).1 })
      (h.connected x) := by
    cases h with
    | none =>
      rw [if_neg (by rw [hs.session]; decide)]
      exact simulates_init hs x
    | some calls =>
      rw [if_pos (by rw [hs.session]; rfl)]
      exact hs
  generalize hs₁ : (if s.initialized then s
    else { (s.init x).2 with initialized := (s.init x).1 }) = s₁ at hconn
  simp only [volPerc, hs₁, Session.call]
  cases hh : h.connected x with
  | none =>
    rw [hh] at hconn
    have hhdl : s₁.hdl = none := by
      by_contra hne
      have := hconn.kept.hdl.mpr hne
      rw [hconn.session] at this
      cases this
    exact .inr ⟨none, s₁, none, by rw [if_pos hhdl], rfl, hconn⟩
  | some calls =>
    rw [hh] at hconn
    have hhdl : s₁.hdl ≠ none := hconn.kept.hdl.mp hconn.session
    rw [if_neg hhdl]
    by_cases hhup : x.ready ∧ x.hup
    · refine .inr ⟨none, _, none, by rw [if_pos hhup], by simp only [if_pos hhup], ?_⟩
      have hevents := simulates_callbacks hconn x.events
      rw [if_pos hhup.1]
      exact simulates_cleanup hevents.kept.resources
    · have hcalls : SndioStatics.Simulates (if x.ready then s₁.callbacks x.events else s₁)
          (some (if x.ready then calls ++ x.events else calls)) := by
        by_cases hready : x.ready
        · rw [if_pos hready, if_pos hready]
          exact simulates_callbacks hconn x.events
        · rw [if_neg hready, if_neg hready]
          exact hconn
      have hloop := congrArg (volumeLoop · 100) hcalls.controls
      simp only [if_neg hhup, sessionText]
      simp only [Option.getD_some] at hloop
      rw [hloop]
      cases volumeLoop (controlsAfter (if x.ready then calls ++ x.events else calls)) 100 with
      | error f => exact .inl ⟨f, rfl, rfl⟩
      | ok value => exact .inr ⟨_, _, _, rfl, rfl, hcalls⟩

theorem volRun_simulates (hs : s.Simulates h) (xs : List SndioInput) :
    (∃ f, volRun s xs = .error f ∧ sessionRun h xs = .error f) ∨
    ∃ rs s' h', volRun s xs = .ok (rs, s') ∧ sessionRun h xs = .ok (rs, h') ∧ s'.Simulates h' := by
  induction xs generalizing s h with
  | nil => exact .inr ⟨[], s, h, rfl, rfl, hs⟩
  | cons x xs ih =>
    rcases volPerc_simulates hs x with ⟨f, hvol, hcall⟩ | ⟨r, s₁, h₁, hvol, hcall, hs₁⟩
    · exact .inl ⟨f, by rw [volRun, hvol], by rw [sessionRun, hcall]⟩
    · rcases ih hs₁ with ⟨f, hrun, hsession⟩ | ⟨rs, s', h', hrun, hsession, hs'⟩
      · refine .inl ⟨f, ?_, ?_⟩
        · simp only [volRun, hvol, hrun]
          rfl
        · simp only [sessionRun, hcall, hsession]
          rfl
      · refine .inr ⟨r :: rs, s', h', ?_, ?_, hs'⟩
        · simp only [volRun, hvol, hrun]
          rfl
        · simp only [sessionRun, hcall, hsession]
          rfl

end Session

theorem decimalInt_natCast (n : Nat) : decimalInt n = decimal n := by
  rw [decimalInt, if_neg (Int.not_lt.mpr (Int.natCast_nonneg n)), Int.natAbs_natCast]

/-- The text of a session whose levels are in range. -/
theorem sessionText_eq {calls : List Callback} (h : ∀ c ∈ controlsAfter calls, c.InRange) :
    ∃ value : Nat, sessionText calls = .ok (some (decimal value)) ∧ value ≤ 100 ∧
      value = if Muted (controlsAfter calls) then 0 else (levels (controlsAfter calls)).min?.getD 100 := by
  have hloop := volumeLoop_eq h 100
  have hle : (levels (controlsAfter calls)).foldl min 100 ≤ 100 := by
    rw [List.foldl_min]
    exact Nat.min_le_left _ _
  have hvalue : (if Muted (controlsAfter calls) then 0
      else (levels (controlsAfter calls)).foldl min 100) ≤ 100 := by
    split_ifs
    · exact Nat.zero_le 100
    · exact hle
  refine ⟨_, ?_, hvalue, by rw [foldl_min_levels h]⟩
  rw [sessionText, show (100 : Int) = (100 : Nat) from rfl, hloop]
  have hlen := decimal_length_le (k := 3) (by decide) (Nat.lt_of_le_of_lt hvalue (by decide))
  show Except.ok (bprintf (decimalInt _)) = _
  rw [decimalInt_natCast, bprintf, if_neg (by omega)]

def oneLevel : List Callback := [.ondesc (some ⟨1, .num, lit "level", [], lit "output", 255⟩) 100]

-- a server that hangs up, and a first attempt to connect again that fails half way
example : (volRun {} [{ descs := oneLevel }, { ready := true, hup := true },
    { descs := oneLevel, allocates := false }, { descs := oneLevel }]).map Prod.fst =
    .ok [some (lit "39"), none, none, some (lit "39")] := by decide +kernel

end Slstatus
