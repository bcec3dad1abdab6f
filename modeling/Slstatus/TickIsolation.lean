import Slstatus.MainLoop

/-! Isolation of the modules within one pass of the update loop. A module that is
due and formats is dispatched exactly when no module before it ends the pass. -/

namespace Slstatus

def vector : Components (Option Bytes) Unit (Option Bytes) := ⟨fun _ _ res _ => .ok (res, ()), id⟩

section Tick

variable (size : Nat) (unknownString : Option Bytes) (loopCount : UInt32)

def Due (m : Arg) : Prop := m.updateInterval ≠ 0 ∧ loopCount % m.updateInterval = 0

instance (m : Arg) : Decidable (Due loopCount m) := inferInstanceAs (Decidable (_ ∧ _))

def Fits (m : Arg) (res : Option Bytes) : Prop :=
  m.func.isSome ∧
  (∃ fmt text, m.fmt = some fmt ∧
    vsnprintf fmt [res.getD (unknownString.getD unknownStr)] = some text ∧ text.length < size) ∧
  ∃ fmt text, m.statusNo = some fmt ∧ vsnprintf fmt [] = some text

/-- The loop does not go past this module. -/
def Stops (m : Arg) (res : Option Bytes) : Prop :=
  m.updateInterval = 0 ∨ Due loopCount m ∧ ¬ Fits size unknownString m res

def Unblocked (table : List Arg) (results : Nat → Option Bytes) : Prop :=
  ∀ i m, table[i]? = some m → Due loopCount m → Fits size unknownString m (results i) →
    ∀ j m', j < i → table[j]? = some m' → ¬ Stops size unknownString loopCount m' (results j)

def tick (table : List Arg) (results : Nat → Option Bytes) : List Nat :=
  dispatched (moduleLoop vector size unknownString loopCount results 0 table ()).1

variable {size unknownString loopCount}

theorem updateModule_fits {i : Nat} {m : Arg} {res : Option Bytes}
    (h : Fits size unknownString m res) :
    ∃ argv, updateModule vector size unknownString i m res () =
      ([.poll i res res, .dispatch i argv], none, ()) := by
  obtain ⟨func, hfunc⟩ := Option.isSome_iff_exists.mp h.1
  obtain ⟨argv, hargv⟩ := sendStatus_ok_iff.mpr h.2
  exact ⟨argv, updateModule_sent hfunc rfl hargv⟩

theorem updateModule_not_fits {i : Nat} {m : Arg} {res : Option Bytes}
    (h : ¬ Fits size unknownString m res) :
    ∃ events e, updateModule vector size unknownString i m res () = (events, some e, ()) ∧
      dispatched events = [] := by
  cases hfunc : m.func with
  | none => exact ⟨[], .faulted .nullPointer, updateModule_none hfunc, rfl⟩
  | some func =>
    cases hsend : sendStatus size m (res.getD (unknownString.getD unknownStr)) with
    | ok argv =>
      have hfits : Fits size unknownString m res :=
        ⟨by simp [hfunc], sendStatus_ok_iff.mp ⟨argv, hsend⟩⟩
      exact absurd hfits h
    | error e => exact ⟨[.poll i res res], e, updateModule_unsent hfunc rfl hsend, rfl⟩

variable (size unknownString loopCount) in
def Reached (results : Nat → Option Bytes) (table : List Arg) (k i : Nat) : Prop :=
  ∃ n m, i = k + n ∧ table[n]? = some m ∧ Due loopCount m ∧
    Fits size unknownString m (results i) ∧
    ∀ j m', j < n → table[j]? = some m' →
      ¬ Stops size unknownString loopCount m' (results (k + j))

theorem reached_cons {results : Nat → Option Bytes} {m : Arg} {ms : List Arg} {k i : Nat} :
    Reached size unknownString loopCount results (m :: ms) k i ↔
      (i = k ∧ Due loopCount m ∧ Fits size unknownString m (results k)) ∨
      (¬ Stops size unknownString loopCount m (results k) ∧
        Reached size unknownString loopCount results ms (k + 1) i) := by
  constructor
  · intro hex
    obtain ⟨n, m', rfl, hm, hdue, hfits, hbefore⟩ := hex
    cases n with
    | zero =>
      obtain rfl : m = m' := by simpa using hm
      exact .inl ⟨rfl, hdue, hfits⟩
    | succ n =>
      refine .inr ⟨hbefore 0 m (by omega) rfl, n, m', by omega, by simpa using hm, hdue, hfits, ?_⟩
      intro j m'' hj hm''
      have hstop := hbefore (j + 1) m'' (by omega) (by simpa using hm'')
      rwa [show k + (j + 1) = k + 1 + j by omega] at hstop
  · intro hor
    rcases hor with ⟨rfl, hdue, hfits⟩ | ⟨hstop, n, m', rfl, hm, hdue, hfits, hbefore⟩
    · exact ⟨0, m, rfl, rfl, hdue, hfits, by omega⟩
    · refine ⟨n + 1, m', by omega, by simpa using hm, hdue, hfits, ?_⟩
      intro j m'' hj hm''
      cases j with
      | zero =>
        obtain rfl : m = m'' := by simpa using hm''
        exact hstop
      | succ j =>
        have := hbefore j m'' (by omega) (by simpa using hm'')
        rwa [show k + (j + 1) = k + 1 + j by omega]

theorem mem_dispatched_moduleLoop {results : Nat → Option Bytes} (table : List Arg) (k i : Nat) :
    i ∈ dispatched (moduleLoop vector size unknownString loopCount results k table ()).1 ↔
      Reached size unknownString loopCount results table k i := by
  induction table generalizing k with
  | nil => simp [moduleLoop, dispatched, Reached]
  | cons m ms ih =>
    rw [reached_cons, ← ih (k + 1)]
    by_cases hzero : m.updateInterval = 0
    · rw [moduleLoop_zero hzero]
      simp [dispatched, Due, Stops, hzero]
    · by_cases hdue : loopCount % m.updateInterval = 0
      · have hd : Due loopCount m := ⟨hzero, hdue⟩
        by_cases hfits : Fits size unknownString m (results k)
        · obtain ⟨argv, hbody⟩ := updateModule_fits (i := k) hfits
          have hgo : ¬ Stops size unknownString loopCount m (results k) := by
            simp [Stops, hzero, hfits]
          rw [moduleLoop_next hzero hdue hbody, dispatched_append]
          simp [dispatched, hd, hfits, hgo]
        · obtain ⟨events, e, hbody, hnone⟩ := updateModule_not_fits (i := k) hfits
          have hstop : Stops size unknownString loopCount m (results k) := .inr ⟨hd, hfits⟩
          rw [moduleLoop_stop hzero hdue hbody, hnone]
          simp [hfits, hstop]
      · have hd : ¬ Due loopCount m := fun h => hdue h.2
        have hgo : ¬ Stops size unknownString loopCount m (results k) := by
          simp [Stops, hzero, hd]
        rw [moduleLoop_skip hzero hdue]
        simp [hd, hgo]

theorem mem_tick {table : List Arg} {results : Nat → Option Bytes} {i : Nat} :
    i ∈ tick size unknownString loopCount table results ↔
      ∃ m, table[i]? = some m ∧ Due loopCount m ∧ Fits size unknownString m (results i) ∧
        ∀ j m', j < i → table[j]? = some m' →
          ¬ Stops size unknownString loopCount m' (results j) := by
  rw [tick, mem_dispatched_moduleLoop]
  simp [Reached]

/-- A pass over live components dispatches what a pass over the vector of the
results they returned does. -/
theorem dispatched_eq_vector {ι σ ρ : Type} {K : Components ι σ ρ} {input : Nat → ι}
    {results : Nat → Option Bytes} (table : List Arg) (k : Nat) (s : σ)
    (hres : ∀ i x r, .poll i x r ∈ (moduleLoop K size unknownString loopCount input k table s).1 →
      results i = K.text r)
    (hok : ∀ f, (moduleLoop K size unknownString loopCount input k table s).2.1 ≠ .faulted f) :
    dispatched (moduleLoop K size unknownString loopCount input k table s).1 =
      dispatched (moduleLoop vector size unknownString loopCount results k table ()).1 := by
  induction table generalizing k s with
  | nil => rfl
  | cons m ms ih =>
    by_cases hzero : m.updateInterval = 0
    · rw [moduleLoop_zero hzero] at hok
      exact absurd rfl (hok _)
    · by_cases hdue : loopCount % m.updateInterval = 0
      · rcases updateModule_cases K size unknownString k m (input k) s with
          ⟨f, hbody⟩ | ⟨func, r, t, hfunc, -, ⟨e, hsend, hbody⟩ | ⟨argv, hsend, hbody⟩⟩
        · rw [moduleLoop_stop hzero hdue hbody] at hok
          exact absurd rfl (hok _)
        · rw [moduleLoop_stop hzero hdue hbody] at hres ⊢
          have hk : results k = K.text r := hres k (input k) r (by simp)
          rw [← hk] at hsend
          rw [moduleLoop_stop hzero hdue (updateModule_unsent (K := vector) hfunc rfl hsend)]
          rfl
        · rw [moduleLoop_next hzero hdue hbody] at hres hok ⊢
          have hk : results k = K.text r := hres k (input k) r (by simp)
          have hrest := ih (k + 1) t (fun i x r' h => hres i x r' (List.mem_append_right _ h)) hok
          rw [← hk] at hsend
          rw [moduleLoop_next hzero hdue (updateModule_sent (K := vector) hfunc rfl hsend),
            dispatched_append, dispatched_append, hrest]
          rfl
      · rw [moduleLoop_skip hzero hdue] at hres hok ⊢
        rw [moduleLoop_skip hzero hdue]
        exact ih (k + 1) s hres hok

end Tick

/-- One pass dispatches every due module whose own status fits exactly when no
module that ends the pass stands before one of them. Between two passes that meet
this condition, the fate of a module that they share with its result is the same. -/
theorem tick_isolated_iff (size : Nat) (unknownString : Option Bytes) (loopCount : UInt32) :
    (∀ table results,
      (∀ i m, table[i]? = some m → Due loopCount m → Fits size unknownString m (results i) →
        i ∈ tick size unknownString loopCount table results) ↔
      Unblocked size unknownString loopCount table results) ∧
    (∀ table table' results results',
      Unblocked size unknownString loopCount table results →
      Unblocked size unknownString loopCount table' results' →
      ∀ i, table[i]? = table'[i]? → results i = results' i →
        (i ∈ tick size unknownString loopCount table results ↔
          i ∈ tick size unknownString loopCount table' results')) := by
  constructor
  · intro table results
    constructor
    · intro h i m hm hdue hfits
      obtain ⟨m', hm', -, -, hbefore⟩ := mem_tick.mp (h i m hm hdue hfits)
      exact hbefore
    · intro h i m hm hdue hfits
      exact mem_tick.mpr ⟨m, hm, hdue, hfits, h i m hm hdue hfits⟩
  · intro table table' results results' hu hu' i htable hres
    rw [mem_tick, mem_tick, ← htable, ← hres]
    constructor
    · intro hex
      obtain ⟨m, hm, hdue, hfits, -⟩ := hex
      exact ⟨m, hm, hdue, hfits, hu' i m (htable ▸ hm) hdue (hres ▸ hfits)⟩
    · intro hex
      obtain ⟨m, hm, hdue, hfits, -⟩ := hex
      exact ⟨m, hm, hdue, hfits, hu i m hm hdue hfits⟩

theorem tick_blocked_by_long_status :
    let m : Arg := ⟨some .cat, some (lit "%s"), some (lit "/a"), some (lit "1"), 1⟩
    let table := [m, { m with statusNo := some (lit "2") }]
    let results : Nat → Option Bytes := fun i => if i = 0 then some (lit "long") else some (lit "ok")
    Due 0 table[1] ∧ Fits 4 none table[1] (results 1) ∧ 1 ∉ tick 4 none 0 table results := by
  refine ⟨by decide, ⟨rfl, ⟨lit "%s", lit "ok", rfl, by decide, by decide⟩, lit "2", lit "2", rfl,
    by decide⟩, by decide⟩

end Slstatus
