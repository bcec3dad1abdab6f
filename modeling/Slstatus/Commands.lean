import Slstatus.Instances
import Slstatus.TickIsolation

/-! The commands that main executes in one pass. Each belongs to a poll of the same
pass; its status number is the configured one only if that fits the buffer of three
bytes and is no directive. -/

namespace Slstatus

section Reactions

variable {ι σ ρ : Type} {K : Components ι σ ρ} {size : Nat} {unknownString : Option Bytes}
  {loopCount : UInt32} {input : Nat → ι} {table : List Arg}

variable (K size unknownString table) in
/-- What the loop does about a result: the poll itself, and the command if the status
of the module can be formatted. -/
def reaction (p : (Nat × ι) × ρ) : List (Event ι ρ) :=
  .poll p.1.1 p.1.2 p.2 ::
    match table[p.1.1]? with
    | none => []
    | some m =>
      match sendStatus size m ((K.text p.2).getD (unknownString.getD unknownStr)) with
      | .error _ => []
      | .ok argv => [.dispatch p.1.1 argv]

variable (K size unknownString) in
theorem updateModule_events {k : Nat} {m : Arg} (hm : table[k]? = some m) (x : ι) (s : σ) :
    (updateModule K size unknownString k m x s).1 =
      (polls (updateModule K size unknownString k m x s).1).flatMap
        (reaction K size unknownString table) := by
  rcases updateModule_cases K size unknownString k m x s with
    ⟨f, h⟩ | ⟨-, r, t, -, -, ⟨e, hsend, h⟩ | ⟨argv, hsend, h⟩⟩
  · rw [h]
    rfl
  · rw [h]
    simp [polls, reaction, hm, hsend]
  · rw [h]
    simp [polls, reaction, hm, hsend]

theorem moduleLoop_events (ms : List Arg) (k : Nat) (s : σ) (htable : table.drop k = ms) :
    (moduleLoop K size unknownString loopCount input k ms s).1 =
      (polls (moduleLoop K size unknownString loopCount input k ms s).1).flatMap
        (reaction K size unknownString table) := by
  induction ms generalizing k s with
  | nil => rfl
  | cons m ms ih =>
    obtain ⟨hm, hdrop⟩ := drop_eq_cons htable
    by_cases hzero : m.updateInterval = 0
    · rw [moduleLoop_zero hzero]
      rfl
    · by_cases hdue : loopCount % m.updateInterval = 0
      · have hevents := updateModule_events K size unknownString hm (input k) s
        cases hbody : updateModule K size unknownString k m (input k) s with
        | mk events out =>
        obtain ⟨e, t⟩ := out
        rw [hbody] at hevents
        cases e with
        | some e =>
          rw [moduleLoop_stop hzero hdue hbody]
          exact hevents
        | none =>
          rw [moduleLoop_next hzero hdue hbody, polls_append, List.flatMap_append, ← hevents,
            ← ih (k + 1) t hdrop]
      · rw [moduleLoop_skip hzero hdue]
        exact ih (k + 1) s hdrop

theorem dispatch_mem_iff {s : σ} {i : Nat} {argv : List Bytes} :
    .dispatch i argv ∈ (moduleLoop K size unknownString loopCount input 0 table s).1 ↔
      ∃ m x r, table[i]? = some m ∧
        .poll i x r ∈ (moduleLoop K size unknownString loopCount input 0 table s).1 ∧
        sendStatus size m ((K.text r).getD (unknownString.getD unknownStr)) = .ok argv := by
  constructor
  · intro h
    rw [moduleLoop_events table 0 s rfl, List.mem_flatMap] at h
    obtain ⟨⟨⟨j, x⟩, r⟩, hpoll, hreact⟩ := h
    rcases List.mem_cons.mp hreact with heq | htail
    · cases heq
    · cases hm : table[j]? with
      | none =>
        simp only [hm] at htail
        cases htail
      | some m =>
        simp only [hm] at htail
        cases hsend : sendStatus size m ((K.text r).getD (unknownString.getD unknownStr)) with
        | error e =>
          simp only [hsend] at htail
          cases htail
        | ok argv' =>
          simp only [hsend, List.mem_singleton, Event.dispatch.injEq] at htail
          obtain ⟨rfl, rfl⟩ := htail
          exact ⟨m, x, r, hm, mem_polls.mp hpoll, hsend⟩
  · intro hex
    obtain ⟨m, x, r, hm, hpoll, hsend⟩ := hex
    rw [moduleLoop_events table 0 s rfl, List.mem_flatMap]
    refine ⟨((i, x), r), mem_polls.mpr hpoll, List.mem_cons_of_mem _ ?_⟩
    simp only [hm, hsend, List.mem_singleton]

theorem sent_of_finished {i : Nat} {x : ι} {r : ρ} (ms : List Arg) (k : Nat) (s : σ)
    (htable : table.drop k = ms)
    (hend : (moduleLoop K size unknownString loopCount input k ms s).2.1 = .finished)
    (hpoll : .poll i x r ∈ (moduleLoop K size unknownString loopCount input k ms s).1) :
    ∃ m argv, table[i]? = some m ∧
      sendStatus size m ((K.text r).getD (unknownString.getD unknownStr)) = .ok argv := by
  induction ms generalizing k s with
  | nil => cases hpoll
  | cons m ms ih =>
    obtain ⟨hm, hdrop⟩ := drop_eq_cons htable
    by_cases hzero : m.updateInterval = 0
    · rw [moduleLoop_zero hzero] at hpoll
      cases hpoll
    · by_cases hdue : loopCount % m.updateInterval = 0
      · rcases updateModule_cases K size unknownString k m (input k) s with
          ⟨f, h⟩ | ⟨-, q, t, -, -, ⟨e, hsend, h⟩ | ⟨argv, hsend, h⟩⟩
        · rw [moduleLoop_stop hzero hdue h] at hpoll
          cases hpoll
        · have hne := updateModule_ne_finished K size unknownString k m (input k) s
          rw [moduleLoop_stop hzero hdue h] at hend
          rw [h] at hne
          exact absurd (congrArg some hend) hne
        · rw [moduleLoop_next hzero hdue h] at hend hpoll
          rcases List.mem_append.mp hpoll with hown | hrest
          · simp at hown
            obtain ⟨rfl, rfl, rfl⟩ := hown
            exact ⟨m, argv, hm, hsend⟩
          · exact ih (k + 1) t hdrop hend hrest
      · rw [moduleLoop_skip hzero hdue] at hend hpoll
        exact ih (k + 1) s hdrop hend hpoll

end Reactions

theorem sendStatus_eq_ok {size : Nat} {m : Arg} {res : Bytes} {argv : List Bytes}
    (h : sendStatus size m res = .ok argv) :
    ∃ fmt text no number, m.fmt = some fmt ∧ vsnprintf fmt [res] = some text ∧
      m.statusNo = some no ∧ vsnprintf no [] = some number ∧ argv = extcmd (number.take 2) text := by
  obtain ⟨⟨fmt, text, hfmt, htext, hlen⟩, no, number, hno, hnumber⟩ := sendStatus_ok_iff.mp ⟨argv, h⟩
  refine ⟨fmt, text, no, number, hfmt, htext, hno, hnumber, ?_⟩
  have hret : ¬ (text.length : Int) < 0 := by omega
  by_cases hfit : number.length < 3
  · simp only [sendStatus, hfmt, esnprintf_fits htext hlen, if_neg hret, hno,
      esnprintf_fits hnumber hfit, Except.ok.injEq] at h
    rw [List.take_of_length_le (Nat.le_of_lt_succ hfit), h]
  · simp only [sendStatus, hfmt, esnprintf_fits htext hlen, if_neg hret, hno,
      esnprintf_truncated hnumber (Nat.le_of_not_lt hfit), Except.ok.injEq] at h
    exact h.symm

/-- The status number reaches the command as it is configured. -/
def Verbatim (no : Bytes) : Prop := no.length ≤ 2 ∧ 37 ∉ no

theorem number_eq_iff {no number : Bytes} (h : vsnprintf no [] = some number) :
    number.take 2 = no ↔ Verbatim no := by
  constructor
  · intro heq
    have hlen : no.length = min 2 number.length := by rw [← heq, List.length_take]
    refine ⟨by omega, ?_⟩
    intro hmem
    have hlt := vsnprintf_nil_length_lt h hmem
    omega
  · intro hno
    obtain rfl : no = number := Option.some.inj ((vsnprintf_plain [] hno.2).symm.trans h)
    exact List.take_of_length_le hno.1

section Own

variable {ι σ ρ : Type} (K : Components ι σ ρ) (size : Nat) (unknownString : Option Bytes)

/-- The command carries the configured status number of the module and its format
applied to the result, with the text for unknown values in place of NULL. -/
def OwnCommand (m : Arg) (r : ρ) (argv : List Bytes) : Prop :=
  ∃ no fmt text, m.statusNo = some no ∧ m.fmt = some fmt ∧
    vsnprintf fmt [(K.text r).getD (unknownString.getD unknownStr)] = some text ∧
    argv = extcmd no text

def CommandsOwn (table : List Arg) (events : List (Event ι ρ)) : Prop :=
  ∀ i argv, .dispatch i argv ∈ events → ∃ m x r, table[i]? = some m ∧ .poll i x r ∈ events ∧
    OwnCommand K unknownString m r argv

variable {K size unknownString} {m : Arg} {r : ρ} {argv : List Bytes}

theorem ownCommand_of_verbatim
    (hsend : sendStatus size m ((K.text r).getD (unknownString.getD unknownStr)) = .ok argv)
    (h : ∀ no, m.statusNo = some no → Verbatim no) : OwnCommand K unknownString m r argv := by
  obtain ⟨fmt, text, no, number, hfmt, htext, hno, hnumber, rfl⟩ := sendStatus_eq_ok hsend
  refine ⟨no, fmt, text, hno, hfmt, htext, ?_⟩
  rw [(number_eq_iff hnumber).mpr (h no hno)]

theorem verbatim_of_ownCommand {res : Bytes} (hsend : sendStatus size m res = .ok argv)
    (h : OwnCommand K unknownString m r argv) {no : Bytes} (hno : m.statusNo = some no) :
    Verbatim no := by
  obtain ⟨-, text, no', number, -, -, hno', hnumber, rfl⟩ := sendStatus_eq_ok hsend
  obtain rfl : no = no' := Option.some.inj (hno.symm.trans hno')
  obtain ⟨no', -, text', hno'', -, -, hargv⟩ := h
  obtain rfl : no = no' := Option.some.inj (hno.symm.trans hno'')
  have heq : number.take 2 = no := by
    simp only [extcmd, List.cons.injEq] at hargv
    exact hargv.2.2.2.2.1
  exact (number_eq_iff hnumber).mp heq

variable {loopCount : UInt32} {input : Nat → ι} {table : List Arg} {s : σ}

theorem commandsOwn_iff :
    CommandsOwn K unknownString table
      (moduleLoop K size unknownString loopCount input 0 table s).1 ↔
    ∀ i m no, table[i]? = some m → m.statusNo = some no →
      (∃ argv, .dispatch i argv ∈ (moduleLoop K size unknownString loopCount input 0 table s).1) →
      Verbatim no := by
  constructor
  · intro h i m no hm hno hex
    obtain ⟨argv, hmem⟩ := hex
    obtain ⟨m', x, r, hm', -, hown⟩ := h i argv hmem
    obtain ⟨m'', y, q, hm'', -, hsend⟩ := dispatch_mem_iff.mp hmem
    obtain rfl : m = m' := Option.some.inj (hm.symm.trans hm')
    obtain rfl : m = m'' := Option.some.inj (hm.symm.trans hm'')
    exact verbatim_of_ownCommand hsend hown hno
  · intro h i argv hmem
    obtain ⟨m, x, r, hm, hpoll, hsend⟩ := dispatch_mem_iff.mp hmem
    refine ⟨m, x, r, hm, hpoll, ?_⟩
    apply ownCommand_of_verbatim hsend
    intro no hno
    exact h i m no hm hno ⟨argv, hmem⟩

end Own

theorem mem_dispatched {ι ρ : Type} {events : List (Event ι ρ)} {i : Nat} :
    i ∈ dispatched events ↔ ∃ argv, .dispatch i argv ∈ events := by
  rw [dispatched, List.mem_filterMap]
  constructor
  · intro hex
    obtain ⟨e, he, hi⟩ := hex
    cases e with
    | poll j x r => cases hi
    | dispatch j argv =>
      cases hi
      exact ⟨argv, he⟩
  · intro hex
    obtain ⟨argv, he⟩ := hex
    exact ⟨_, he, rfl⟩

/-- With short plain status numbers the commands of every pass of main are the
configured ones, whatever the components find. -/
theorem mainTick_commands_own {c : Config} {table : List Arg} (htable : c.table = .ok table)
    (h : ∀ m ∈ table, ∀ no, m.statusNo = some no → Verbatim no) (loopCount : UInt32)
    (input : Nat → Outside) (s : Statics) :
    CommandsOwn (live c.interval) c.unknownString table (mainTick c loopCount input s).1 := by
  by_cases hsize : c.maximumStatusLength < 1
  · simp only [mainTick, if_pos hsize]
    intro i argv hmem
    cases hmem
  · simp only [mainTick, if_neg hsize, htable]
    rw [commandsOwn_iff]
    intro i m no hm hno _
    exact h m (List.mem_of_getElem? hm) no hno

end Slstatus
