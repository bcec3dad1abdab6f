import Slstatus.Run

/-! What main and the components rely on in the loaded configuration, and the
documents that provide it. -/

namespace Slstatus

structure Arg.Relied (m : Arg) : Prop where
  func : m.func ≠ none
  fmt : m.fmt ≠ none
  statusNo : m.statusNo ≠ none
  updateInterval : 1 ≤ m.updateInterval
  args : ∀ f, m.func = some f → f.readsArgument = true → m.args ≠ none

structure Config.Relied (c : Config) : Prop where
  numModules : 1 ≤ c.numModules
  modules : ∃ ms, c.modules = some ms ∧ ms.length = c.numModules ∧ ∀ m ∈ ms, m.Relied
  maximumStatusLength : 1 ≤ c.maximumStatusLength
  interval : 1 ≤ c.interval

def Config.RunsSafely (c : Config) : Prop :=
  ∀ loopCount input s f, (mainTick c loopCount input s).2.1 = .faulted f →
    f ≠ .divByZero ∧ f ≠ .nullPointer

section Faults

theorem map_eq_error {α β : Type} {x : Except Fault α} {g : α → β} {f : Fault}
    (h : x.map g = .error f) : x = .error f := by
  cases x with
  | ok a => cases h
  | error e => simpa [Except.map] using h

theorem esnprintf_error {size : Nat} {fmt : Bytes} {args : List Bytes} {f : Fault}
    (h : esnprintf size fmt args = .error f) : f = .undefinedFormat := by
  cases htext : vsnprintf fmt args with
  | none =>
    rw [esnprintf_undefined htext] at h
    exact (Except.error.inj h).symm
  | some text =>
    by_cases hlen : text.length < size
    · rw [esnprintf_fits htext hlen] at h
      cases h
    · rw [esnprintf_truncated htext (Nat.le_of_not_lt hlen)] at h
      cases h

theorem Reading.human_error {num : UInt64} {f : Fault} (h : Reading.human num = .error f) :
    f = .outOfBounds := by
  unfold Reading.human fmtHuman fmtHumanWith at h
  grind

theorem netspeed_error {path : Bytes} {interval : UInt32} {interface : Option Bytes}
    {counter : Option UInt64} {old : UInt64} {f : Fault} (hinterval : 1 ≤ interval)
    (hinterface : interface ≠ none)
    (h : netspeed path interval interface counter old = .error f) :
    f = .undefinedFormat ∨ f = .outOfBounds := by
  obtain ⟨name, rfl⟩ := Option.ne_none_iff_exists'.mp hinterface
  cases hpath : esnprintf 4096 path [name] with
  | error g =>
    simp only [netspeed, hpath] at h
    exact .inl ((Except.error.inj h).symm.trans (esnprintf_error hpath))
  | ok out =>
    obtain ⟨ret, text⟩ := out
    have hzero : interval ≠ 0 := by
      intro he
      subst he
      exact absurd hinterval (by decide)
    simp only [netspeed, hpath, if_neg hzero] at h
    split at h
    · cases h
    · split at h
      · cases h
      · split at h
        · cases h
        · exact .inr (Reading.human_error (map_eq_error h))

theorem ioCounter_error {io : GetIo} {old : UInt64} {f : Fault}
    (h : ioCounter io old = .error f) : f = .outOfBounds := by
  simp only [ioCounter] at h
  split at h
  · cases h
  · split at h
    · cases h
    · exact Reading.human_error (map_eq_error h)

theorem callFunc_error {interval : UInt32} {func : Func} {args : Option Bytes} {o : Outside}
    {s : Statics} {f : Fault} (hinterval : 1 ≤ interval)
    (hargs : func.readsArgument = true → args ≠ none)
    (h : callFunc interval func args o s = .error f) : f ≠ .divByZero ∧ f ≠ .nullPointer := by
  cases func
  case netspeedRx | netspeedTx =>
    rcases netspeed_error hinterval (hargs rfl) (map_eq_error h) with rfl | rfl <;> decide
  case ioIn | ioOut =>
    obtain rfl := ioCounter_error (map_eq_error h)
    decide
  case ioPerc | cpuPerc => cases h
  all_goals
    simp only [callFunc, Func.readsArgument, Bool.false_and, Bool.true_and, Bool.false_eq_true,
      if_false] at h
  all_goals first
    | cases h
    | simp [hargs rfl] at h

theorem sendStatus_fault {size : Nat} {m : Arg} {res : Bytes} {f : Fault} (hm : m.Relied)
    (h : sendStatus size m res = .error (.faulted f)) : f = .undefinedFormat := by
  obtain ⟨fmt, hfmt⟩ := Option.ne_none_iff_exists'.mp hm.fmt
  obtain ⟨sfmt, hsfmt⟩ := Option.ne_none_iff_exists'.mp hm.statusNo
  simp only [sendStatus, hfmt, hsfmt] at h
  split at h
  · rename_i g hg
    simp only [Except.error.injEq, LoopEnd.faulted.injEq] at h
    exact h ▸ esnprintf_error hg
  · split at h
    · cases h
    · split at h
      · rename_i g hg
        simp only [Except.error.injEq, LoopEnd.faulted.injEq] at h
        exact h ▸ esnprintf_error hg
      · cases h

variable {ι σ ρ : Type} {K : Components ι σ ρ} {size : Nat} {unknownString : Option Bytes}

theorem moduleLoop_fault {P : Fault → Prop} {loopCount : UInt32} {input : Nat → ι}
    (hundef : P .undefinedFormat) (table : List Arg) (k : Nat) (s : σ)
    (htable : ∀ m ∈ table, m.Relied)
    (hcall : ∀ m ∈ table, ∀ func x s f, m.func = some func →
      K.call func m.args x s = .error f → P f) {f : Fault}
    (h : (moduleLoop K size unknownString loopCount input k table s).2.1 = .faulted f) : P f := by
  induction table generalizing k s with
  | nil => cases h
  | cons m ms ih =>
    have hm := htable m (by simp)
    have hms := fun s' => ih (k + 1) s' (fun m' h' => htable m' (by simp [h']))
      (fun m' h' => hcall m' (by simp [h']))
    have hzero : m.updateInterval ≠ 0 := by
      intro hz
      have := hm.updateInterval
      rw [hz] at this
      exact absurd this (by decide)
    by_cases hdue : loopCount % m.updateInterval = 0
    · obtain ⟨func, hfunc⟩ := Option.ne_none_iff_exists'.mp hm.func
      cases hc : K.call func m.args (input k) s with
      | error g =>
        rw [moduleLoop_stop hzero hdue (updateModule_failed hfunc hc)] at h
        obtain rfl : g = f := LoopEnd.faulted.inj h
        exact hcall m (by simp) func _ _ g hfunc hc
      | ok out =>
        obtain ⟨r, t⟩ := out
        cases hsend : sendStatus size m ((K.text r).getD (unknownString.getD unknownStr)) with
        | error e =>
          rw [moduleLoop_stop hzero hdue (updateModule_unsent hfunc hc hsend)] at h
          obtain rfl : e = .faulted f := h
          exact sendStatus_fault hm hsend ▸ hundef
        | ok argv =>
          rw [moduleLoop_next hzero hdue (updateModule_sent hfunc hc hsend)] at h
          exact hms t h
    · rw [moduleLoop_skip hzero hdue] at h
      exact hms s h

end Faults

theorem Config.Relied.runsSafely {c : Config} (hc : c.Relied) : c.RunsSafely := by
  intro loopCount input s f h
  obtain ⟨ms, hms, hlen, hrel⟩ := hc.modules
  have htable : c.table = .ok ms := by simp [Config.table, hms, ← hlen]
  have hsize : ¬ c.maximumStatusLength < 1 := Int32.not_lt.mpr hc.maximumStatusLength
  simp only [mainTick, if_neg hsize, htable] at h
  refine moduleLoop_fault (P := fun f => f ≠ .divByZero ∧ f ≠ .nullPointer) (by decide) ms 0 s hrel
    ?_ h
  intro m hm func x s f hfunc herr
  exact callFunc_error hc.interval ((hrel m hm).args func hfunc) herr

end Slstatus
