import Slstatus.Arg
import Slstatus.Printf

/-! One pass of the update loop of main over the module table. What the component
functions do is a parameter, so that the same loop serves a fixed vector of
results and the components with their static variables. -/

namespace Slstatus

/-- The component functions: what a call reads, the state it threads through, and
the string it returns, NULL being `none`. -/
structure Components (ι σ ρ : Type) where
  call : Func → Option Bytes → ι → σ → Except Fault (ρ × σ)
  text : ρ → Option Bytes

/-- What the loop does that can be seen: it polls module `i`, or forks the
command with the given argument vector on behalf of module `i`. -/
inductive Event (ι ρ : Type)
  | poll (i : Nat) (input : ι) (result : ρ)
  | dispatch (i : Nat) (argv : List Bytes)

inductive LoopEnd
  | finished
  | broke
  | faulted (f : Fault)
  deriving DecidableEq

def extcmd (statusNo status : Bytes) : List Bytes :=
  [lit "duskc", lit "--ignore-reply", lit "run_command", lit "setstatus", statusNo, status]

def sendStatus (size : Nat) (m : Arg) (res : Bytes) : Except LoopEnd (List Bytes) :=
  match m.fmt with
  | none => .error (.faulted .nullPointer)
  | some fmt =>
    match esnprintf size fmt [res] with
    | .error f => .error (.faulted f)
    | .ok (ret, status) =>
      if ret < 0 then .error .broke
      else
        match m.statusNo with
        | none => .error (.faulted .nullPointer)
        | some fmt =>
          match esnprintf 3 fmt [] with
          | .error f => .error (.faulted f)
          | .ok (_, statusNo) => .ok (extcmd statusNo status)

theorem sendStatus_ne_finished {size : Nat} (m : Arg) (res : Bytes) :
    sendStatus size m res ≠ .error .finished := by
  unfold sendStatus
  split
  · simp
  · split
    · simp
    · split_ifs
      · simp
      · split
        · simp
        · split
          · simp
          · simp

variable {ι σ ρ : Type}

/-- The body of the loop for a module that is due: the events, how the loop ends
if it ends here, and the components' state. -/
def updateModule (K : Components ι σ ρ) (size : Nat) (unknownString : Option Bytes)
    (i : Nat) (m : Arg) (input : ι) (s : σ) : List (Event ι ρ) × Option LoopEnd × σ :=
  match m.func with
  | none => ([], some (.faulted .nullPointer), s)
  | some func =>
    match K.call func m.args input s with
    | .error f => ([], some (.faulted f), s)
    | .ok (r, s) =>
      match sendStatus size m ((K.text r).getD (unknownString.getD unknownStr)) with
      | .error e => ([.poll i input r], some e, s)
      | .ok argv => ([.poll i input r, .dispatch i argv], none, s)

def moduleLoop (K : Components ι σ ρ) (size : Nat) (unknownString : Option Bytes)
    (loopCount : UInt32) (input : Nat → ι) : Nat → List Arg → σ →
    List (Event ι ρ) × LoopEnd × σ
  | _, [], s => ([], .finished, s)
  | i, m :: ms, s =>
    if m.updateInterval = 0 then ([], .faulted .divByZero, s)
    else if loopCount % m.updateInterval ≠ 0 then
      moduleLoop K size unknownString loopCount input (i + 1) ms s
    else
      match updateModule K size unknownString i m (input i) s with
      | (events, some e, s) => (events, e, s)
      | (events, none, s) =>
        let rest := moduleLoop K size unknownString loopCount input (i + 1) ms s
        (events ++ rest.1, rest.2)

def dispatched (events : List (Event ι ρ)) : List Nat :=
  events.filterMap (fun | .dispatch i _ => some i | .poll .. => none)

section Step

variable {K : Components ι σ ρ} {size : Nat} {unknownString : Option Bytes} {k : Nat} {m : Arg}
  {func : Func} {x : ι} {r : ρ} {s t : σ}

theorem updateModule_none (hfunc : m.func = none) :
    updateModule K size unknownString k m x s = ([], some (.faulted .nullPointer), s) := by
  simp only [updateModule, hfunc]

theorem updateModule_failed {f : Fault} (hfunc : m.func = some func)
    (hcall : K.call func m.args x s = .error f) :
    updateModule K size unknownString k m x s = ([], some (.faulted f), s) := by
  simp only [updateModule, hfunc, hcall]

theorem updateModule_unsent {e : LoopEnd} (hfunc : m.func = some func)
    (hcall : K.call func m.args x s = .ok (r, t))
    (hsend : sendStatus size m ((K.text r).getD (unknownString.getD unknownStr)) = .error e) :
    updateModule K size unknownString k m x s = ([.poll k x r], some e, t) := by
  simp only [updateModule, hfunc, hcall, hsend]

theorem updateModule_sent {argv : List Bytes} (hfunc : m.func = some func)
    (hcall : K.call func m.args x s = .ok (r, t))
    (hsend : sendStatus size m ((K.text r).getD (unknownString.getD unknownStr)) = .ok argv) :
    updateModule K size unknownString k m x s = ([.poll k x r, .dispatch k argv], none, t) := by
  simp only [updateModule, hfunc, hcall, hsend]

variable (K size unknownString) in
theorem updateModule_cases (k : Nat) (m : Arg) (x : ι) (s : σ) :
    (∃ f, updateModule K size unknownString k m x s = ([], some (.faulted f), s)) ∨
    ∃ func r t, m.func = some func ∧ K.call func m.args x s = .ok (r, t) ∧
      ((∃ e, sendStatus size m ((K.text r).getD (unknownString.getD unknownStr)) = .error e ∧
        updateModule K size unknownString k m x s = ([.poll k x r], some e, t)) ∨
      ∃ argv, sendStatus size m ((K.text r).getD (unknownString.getD unknownStr)) = .ok argv ∧
        updateModule K size unknownString k m x s = ([.poll k x r, .dispatch k argv], none, t)) := by
  cases hfunc : m.func with
  | none => exact .inl ⟨_, updateModule_none hfunc⟩
  | some func =>
    cases hcall : K.call func m.args x s with
    | error f => exact .inl ⟨_, updateModule_failed hfunc hcall⟩
    | ok out =>
      obtain ⟨r, t⟩ := out
      refine .inr ⟨func, r, t, rfl, hcall, ?_⟩
      cases hsend : sendStatus size m ((K.text r).getD (unknownString.getD unknownStr)) with
      | error e => exact .inl ⟨e, rfl, updateModule_unsent hfunc hcall hsend⟩
      | ok argv => exact .inr ⟨argv, rfl, updateModule_sent hfunc hcall hsend⟩

variable (K size unknownString) in
theorem updateModule_ne_finished (k : Nat) (m : Arg) (x : ι) (s : σ) :
    (updateModule K size unknownString k m x s).2.1 ≠ some .finished := by
  rcases updateModule_cases K size unknownString k m x s with
    ⟨f, h⟩ | ⟨-, r, t, -, -, ⟨e, hsend, h⟩ | ⟨argv, hsend, h⟩⟩
  · rw [h]
    simp
  · rw [h]
    intro heq
    obtain rfl := Option.some.inj heq
    exact sendStatus_ne_finished m _ hsend
  · rw [h]
    simp

variable {loopCount : UInt32} {input : Nat → ι} {ms : List Arg} {events : List (Event ι ρ)}

theorem moduleLoop_zero (hzero : m.updateInterval = 0) :
    moduleLoop K size unknownString loopCount input k (m :: ms) s =
      ([], .faulted .divByZero, s) := by
  simp only [moduleLoop, if_pos hzero]

theorem moduleLoop_skip (hzero : m.updateInterval ≠ 0)
    (hdue : loopCount % m.updateInterval ≠ 0) :
    moduleLoop K size unknownString loopCount input k (m :: ms) s =
      moduleLoop K size unknownString loopCount input (k + 1) ms s := by
  simp only [moduleLoop, if_neg hzero, if_pos hdue]

theorem moduleLoop_stop {e : LoopEnd} (hzero : m.updateInterval ≠ 0)
    (hdue : loopCount % m.updateInterval = 0)
    (hbody : updateModule K size unknownString k m (input k) s = (events, some e, t)) :
    moduleLoop K size unknownString loopCount input k (m :: ms) s = (events, e, t) := by
  simp only [moduleLoop, if_neg hzero, if_neg (not_not.mpr hdue), hbody]

theorem moduleLoop_next (hzero : m.updateInterval ≠ 0)
    (hdue : loopCount % m.updateInterval = 0)
    (hbody : updateModule K size unknownString k m (input k) s = (events, none, t)) :
    moduleLoop K size unknownString loopCount input k (m :: ms) s =
      (events ++ (moduleLoop K size unknownString loopCount input (k + 1) ms t).1,
        (moduleLoop K size unknownString loopCount input (k + 1) ms t).2) := by
  simp only [moduleLoop, if_neg hzero, if_neg (not_not.mpr hdue), hbody]

end Step

theorem dispatched_append (events events' : List (Event ι ρ)) :
    dispatched (events ++ events') = dispatched events ++ dispatched events' :=
  List.filterMap_append

theorem sendStatus_ok_iff {size : Nat} {m : Arg} {res : Bytes} :
    (∃ argv, sendStatus size m res = .ok argv) ↔
      (∃ fmt text, m.fmt = some fmt ∧ vsnprintf fmt [res] = some text ∧ text.length < size) ∧
      ∃ fmt text, m.statusNo = some fmt ∧ vsnprintf fmt [] = some text := by
  cases hfmt : m.fmt with
  | none => simp [sendStatus, hfmt]
  | some fmt =>
  cases htext : vsnprintf fmt [res] with
  | none => simp [sendStatus, hfmt, htext, esnprintf_undefined htext]
  | some text =>
  by_cases hlen : text.length < size
  · have hret : ¬ (text.length : Int) < 0 := by omega
    cases hno : m.statusNo with
    | none => simp [sendStatus, hfmt, esnprintf_fits htext hlen, hret, hno]
    | some sfmt =>
    cases hst : vsnprintf sfmt [] with
    | none =>
      simp [sendStatus, hfmt, esnprintf_fits htext hlen, hret, hno, hst, esnprintf_undefined hst]
    | some stext =>
    have hsend : ∃ argv, sendStatus size m res = .ok argv := by
      by_cases hs : stext.length < 3
      · exact ⟨extcmd stext text, by simp [sendStatus, hfmt, esnprintf_fits htext hlen, hret, hno,
          esnprintf_fits hst hs]⟩
      · exact ⟨extcmd (stext.take 2) text, by simp [sendStatus, hfmt, esnprintf_fits htext hlen,
          hret, hno, esnprintf_truncated hst (Nat.le_of_not_lt hs)]⟩
    exact iff_of_true hsend ⟨⟨fmt, text, rfl, htext, hlen⟩, sfmt, stext, rfl, hst⟩
  · have hlong := esnprintf_truncated htext (Nat.le_of_not_lt hlen)
    simp [sendStatus, hfmt, hlong, htext, hlen]

end Slstatus
