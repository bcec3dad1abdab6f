import Slstatus.Lib.Registers
import Slstatus.Signals

/-! What the bar shows. dusk keeps a text for each status number, and every `setstatus` command
overwrites one of them. -/

namespace Slstatus

abbrev Bar := Bytes → Bytes

/-- The number and the text of a command `duskc --ignore-reply run_command setstatus`. -/
def setstatus : List Bytes → Option (Bytes × Bytes)
  | [command, flag, function, name, number, text] =>
    if [command, flag, function, name] =
        [lit "duskc", lit "--ignore-reply", lit "run_command", lit "setstatus"] then
      some (number, text)
    else none
  | _ => none

def updates {ι ρ : Type} (events : List (Event ι ρ)) : List (Bytes × Bytes) :=
  events.filterMap (fun | .dispatch _ argv => setstatus argv | .poll .. => none)

def Bar.after {ι ρ : Type} (b : Bar) (events : List (Event ι ρ)) : Bar :=
  Registers.replay b (updates events)

theorem updates_append {ι ρ : Type} (events events' : List (Event ι ρ)) :
    updates (events ++ events') = updates events ++ updates events' := List.filterMap_append

theorem updates_cons {ι ρ : Type} {events : List (Event ι ρ)} {i : Nat} {argv : List Bytes}
    {w : Bytes × Bytes} (h : setstatus argv = some w) :
    updates (.dispatch i argv :: events) = w :: updates events := List.filterMap_cons_some h

theorem mem_updates {ι ρ : Type} {events : List (Event ι ρ)} {w : Bytes × Bytes} :
    w ∈ updates events ↔ ∃ i argv, .dispatch i argv ∈ events ∧ setstatus argv = some w := by
  rw [updates, List.mem_filterMap]
  constructor
  · intro hex
    obtain ⟨e, he, hw⟩ := hex
    cases e with
    | poll i x r => cases hw
    | dispatch i argv => exact ⟨i, argv, he, hw⟩
  · intro hex
    obtain ⟨i, argv, he, hw⟩ := hex
    exact ⟨_, he, hw⟩

/-- The status number as it reaches the command. -/
def Arg.number (m : Arg) : Option Bytes :=
  (m.statusNo.bind (fun no => vsnprintf no [])).map (List.take 2)

/-- The last of the passes `0` to `n` in which a module is due. -/
def Arg.lastDue (m : Arg) (n : Nat) : Nat := WrapCounter.latest m.updateInterval.toNat (2 ^ 32) n

theorem setstatus_extcmd (number text : Bytes) :
    setstatus (extcmd number text) = some (number, text) := rfl

theorem setstatus_sent {size : Nat} {m : Arg} {res : Bytes} {argv : List Bytes}
    (h : sendStatus size m res = .ok argv) :
    ∃ number fmt text, m.number = some number ∧ m.fmt = some fmt ∧
      vsnprintf fmt [res] = some text ∧ text.length < size ∧
      setstatus argv = some (number, text) := by
  obtain ⟨⟨fmt', text', hfmt', htext', hlen⟩, -⟩ := sendStatus_ok_iff.mp ⟨argv, h⟩
  obtain ⟨fmt, text, no, number, hfmt, htext, hno, hnumber, rfl⟩ := sendStatus_eq_ok h
  obtain rfl : fmt = fmt' := Option.some.inj (hfmt.symm.trans hfmt')
  obtain rfl : text = text' := Option.some.inj (htext.symm.trans htext')
  refine ⟨number.take 2, fmt, text, ?_, hfmt, htext, hlen, setstatus_extcmd _ _⟩
  rw [Arg.number, hno, Option.bind_some, hnumber, Option.map_some]

section Pass

variable {ι σ ρ : Type} {K : Components ι σ ρ} {size : Nat} {unknownString : Option Bytes}
  {loopCount : UInt32} {input : Nat → ι}

theorem dispatched_moduleLoop (ms : List Arg) (k : Nat) (s : σ) :
    (dispatched (moduleLoop K size unknownString loopCount input k ms s).1).Pairwise (· < ·) ∧
      ∀ i ∈ dispatched (moduleLoop K size unknownString loopCount input k ms s).1, k ≤ i := by
  induction ms generalizing k s with
  | nil => exact ⟨List.Pairwise.nil, by simp [moduleLoop, dispatched]⟩
  | cons m ms ih =>
    by_cases hzero : m.updateInterval = 0
    · rw [moduleLoop_zero hzero]
      exact ⟨List.Pairwise.nil, by simp [dispatched]⟩
    · by_cases hdue : loopCount % m.updateInterval = 0
      · rcases updateModule_cases K size unknownString k m (input k) s with
          ⟨f, h⟩ | ⟨-, q, t, -, -, ⟨e, -, h⟩ | ⟨argv, -, h⟩⟩
        · rw [moduleLoop_stop hzero hdue h]
          exact ⟨List.Pairwise.nil, by simp [dispatched]⟩
        · rw [moduleLoop_stop hzero hdue h]
          exact ⟨List.Pairwise.nil, by simp [dispatched]⟩
        · obtain ⟨hpair, hle⟩ := ih (k + 1) t
          rw [moduleLoop_next hzero hdue h, dispatched_append]
          refine ⟨List.pairwise_cons.mpr ⟨hle, hpair⟩, ?_⟩
          intro i hi
          rcases List.mem_cons.mp hi with rfl | hi
          · exact le_rfl
          · exact (Nat.le_succ k).trans (hle i hi)
      · rw [moduleLoop_skip hzero hdue]
        obtain ⟨hpair, hle⟩ := ih (k + 1) s
        exact ⟨hpair, fun i hi => (Nat.le_succ k).trans (hle i hi)⟩

theorem interval_ne_zero_of_finished (ms : List Arg) (k : Nat) (s : σ)
    (h : (moduleLoop K size unknownString loopCount input k ms s).2.1 = .finished) :
    ∀ m ∈ ms, m.updateInterval ≠ 0 := by
  induction ms generalizing k s with
  | nil => simp
  | cons m ms ih =>
    by_cases hzero : m.updateInterval = 0
    · rw [moduleLoop_zero hzero] at h
      cases h
    · have hrest : ∃ t, (moduleLoop K size unknownString loopCount input (k + 1) ms t).2.1 =
          .finished := by
        by_cases hdue : loopCount % m.updateInterval = 0
        · cases hbody : updateModule K size unknownString k m (input k) s with
          | mk events out =>
          obtain ⟨e, t⟩ := out
          cases e with
          | some e =>
            have hne := updateModule_ne_finished K size unknownString k m (input k) s
            rw [moduleLoop_stop hzero hdue hbody] at h
            rw [hbody] at hne
            exact absurd (congrArg some h) hne
          | none =>
            rw [moduleLoop_next hzero hdue hbody] at h
            exact ⟨t, h⟩
        · rw [moduleLoop_skip hzero hdue] at h
          exact ⟨s, h⟩
      obtain ⟨t, hrest⟩ := hrest
      exact List.forall_mem_cons.mpr ⟨hzero, ih (k + 1) t hrest⟩

/-- After the command of a module a pass sends no other one for it. -/
theorem dispatched_once {table : List Arg} {s : σ} {i : Nat} {argv : List Bytes}
    (h : .dispatch i argv ∈ (moduleLoop K size unknownString loopCount input 0 table s).1) :
    ∃ before later, (moduleLoop K size unknownString loopCount input 0 table s).1 =
      before ++ .dispatch i argv :: later ∧ ∀ argv', .dispatch i argv' ∉ later := by
  obtain ⟨before, later, heq⟩ := List.append_of_mem h
  refine ⟨before, later, heq, ?_⟩
  intro argv' hmem
  have hpair : (dispatched (moduleLoop K size unknownString loopCount input 0 table s).1).Pairwise
      (· < ·) := (dispatched_moduleLoop table 0 s).1
  rw [heq, dispatched_append] at hpair
  have htail := (List.pairwise_append.mp hpair).2.1
  have hlater : i ∈ dispatched later := mem_dispatched.mpr ⟨argv', hmem⟩
  exact lt_irrefl i ((List.pairwise_cons.mp htail).1 i hlater)

end Pass

section Run

variable {c : Config} {table : List Arg} {env : Nat → Nat → Outside} {n t i : Nat} {m : Arg}

theorem runMain_log (h : (runMain c env t).fault = none) :
    (runMain c env (t + 1)).log = (runMain c env t).log ++ (passAt c env t).1 := by
  have hnext : runMain c env (t + 1) = iteration c (env t) (runMain c env t) := rfl
  rw [hnext]
  simp only [iteration, h]
  rfl

/-- The log of a run, parted at one of its passes. -/
theorem log_split (h : (runMain c env n).fault = none) (ht : t < n) :
    ∃ later, (runMain c env n).log = (runMain c env t).log ++ (passAt c env t).1 ++ later ∧
      ∀ e ∈ later, ∃ u, t < u ∧ u < n ∧ e ∈ (passAt c env u).1 := by
  induction n with
  | zero => cases ht
  | succ n ih =>
    rw [runMain_log (running_of_succ h)]
    rcases Nat.lt_succ_iff_lt_or_eq.mp ht with hlt | rfl
    · obtain ⟨later, heq, hlater⟩ := ih (running_of_succ h) hlt
      refine ⟨later ++ (passAt c env n).1, by rw [heq, List.append_assoc], ?_⟩
      intro e he
      rcases List.mem_append.mp he with he | he
      · obtain ⟨u, hu, hun, hmem⟩ := hlater e he
        exact ⟨u, hu, Nat.lt_succ_of_lt hun, hmem⟩
      · exact ⟨n, hlt, Nat.lt_succ_self n, he⟩
    · exact ⟨[], (List.append_nil _).symm, by simp⟩

variable (htable : c.table = .ok table) (h : Undisturbed c env n)

include htable h

/-- Every command of a pass belongs to a module that the pass has polled. -/
theorem command_of_poll {argv : List Bytes} (ht : t < n)
    (hmem : .dispatch i argv ∈ (passAt c env t).1) :
    ∃ m r number fmt text, table[i]? = some m ∧ .poll i (env t i) r ∈ (passAt c env t).1 ∧
      m.number = some number ∧ m.fmt = some fmt ∧
      vsnprintf fmt [r.text.getD (c.unknownString.getD unknownStr)] = some text ∧
      (text.length : Int) < c.maximumStatusLength.toInt ∧ setstatus argv = some (number, text) := by
  have hend := h.finished ht
  have hpass := passAt_eq htable hend
  rw [hpass] at hmem hend ⊢
  obtain ⟨m, x, r, hm, hpoll, hsend⟩ := dispatch_mem_iff.mp hmem
  obtain ⟨number, fmt, text, hnumber, hfmt, htext, hlen, hset⟩ := setstatus_sent hsend
  obtain rfl : x = env t i := by
    have hlog := instanceLog_moduleLoop (i := i) table 0 _ hend
    have hx := List.mem_map_of_mem (f := Prod.fst) (mem_instanceLog.mpr hpoll)
    rw [hlog] at hx
    split at hx
    · exact List.mem_singleton.mp hx
    · cases hx
  have hfits : text.length < c.maximumStatusLength.toInt.toNat := hlen
  exact ⟨m, r, number, fmt, text, hm, hpoll, hnumber, hfmt, htext, by omega, hset⟩

omit htable in
theorem mem_log {e : Event Outside Reading} (he : e ∈ (runMain c env n).log) :
    ∃ u < n, e ∈ (passAt c env u).1 := by
  cases n with
  | zero => cases he
  | succ n =>
    obtain ⟨later, heq, hlater⟩ := log_split h.running (Nat.succ_pos n)
    rw [heq, List.append_assoc] at he
    rcases List.mem_append.mp he with he | he
    · cases he
    · rcases List.mem_append.mp he with he | he
      · exact ⟨0, Nat.succ_pos n, he⟩
      · obtain ⟨u, -, hun, hmem⟩ := hlater e he
        exact ⟨u, hun, hmem⟩

/-- A module that is due in a pass and in none of the later ones leaves its text in the bar, if
no other module has its number. -/
theorem bar_after_last (ht : t < n) (hm : table[i]? = some m)
    (hown : ∀ j m', table[j]? = some m' → m'.number = m.number → j = i)
    (hdue : m.updateInterval.toNat ∣ t % 2 ^ 32)
    (hlast : ∀ u, t < u → u < n → ¬ m.updateInterval.toNat ∣ u % 2 ^ 32) (b : Bar) :
    ∃ number fmt r text, m.number = some number ∧ m.fmt = some fmt ∧
      .poll i (env t i) r ∈ (passAt c env t).1 ∧
      vsnprintf fmt [r.text.getD (c.unknownString.getD unknownStr)] = some text ∧
      (text.length : Int) < c.maximumStatusLength.toInt ∧
      b.after (runMain c env n).log number = text := by
  obtain ⟨argv, hmem⟩ := dispatches_of_polls htable h ht ((polled_iff htable h hm ht).mpr hdue)
  obtain ⟨m', r, number, fmt, text, hm', hpoll, hnumber, hfmt, htext, hlen, hset⟩ :=
    command_of_poll htable h ht hmem
  obtain rfl : m = m' := Option.some.inj (hm.symm.trans hm')
  refine ⟨number, fmt, r, text, hnumber, hfmt, hpoll, htext, hlen, ?_⟩
  have hpass := passAt_eq htable (h.finished ht)
  rw [hpass] at hmem
  obtain ⟨before, rest, hevents, honce⟩ := dispatched_once hmem
  obtain ⟨later, hlog, hlater⟩ := log_split h.running ht
  rw [Bar.after, hlog, hpass, hevents, List.append_assoc, List.append_assoc, List.cons_append,
    ← List.append_assoc, updates_append, updates_cons hset]
  have hself : ∀ u < n, ∀ j argv' text', .dispatch j argv' ∈ (passAt c env u).1 →
      setstatus argv' = some (number, text') → j = i ∧ Polled c env i u := by
    intro u hu j argv' text' hsent hset'
    obtain ⟨m', r', number', -, _, hm', hpoll', hnumber', -, -, -, hset''⟩ :=
      command_of_poll htable h hu hsent
    obtain rfl : number' = number :=
      (Prod.mk.inj (Option.some.inj (hset''.symm.trans hset'))).1
    obtain rfl := hown j m' hm' (hnumber'.trans hnumber.symm)
    exact ⟨rfl, env u j, r', hpoll'⟩
  refine Registers.replay_last _ text ?_
  intro w hw hkey
  obtain ⟨j, argv', hsent, hset'⟩ := mem_updates.mp hw
  rw [show w = (number, w.2) from Prod.ext hkey rfl] at hset'
  rcases List.mem_append.mp hsent with hrest | hlate
  · have hsame : .dispatch j argv' ∈ (passAt c env t).1 := by
      rw [hpass, hevents]
      exact List.mem_append_right _ (List.mem_cons_of_mem _ hrest)
    obtain ⟨rfl, -⟩ := hself t ht j argv' w.2 hsame hset'
    exact honce argv' hrest
  · obtain ⟨u, htu, hun, hmem'⟩ := hlater _ hlate
    obtain ⟨rfl, hpolled⟩ := hself u hun j argv' w.2 hmem' hset'
    exact hlast u htu hun ((polled_iff htable h hm hun).mp hpolled)

/-- The texts of the numbers that no module has stay as they are. -/
theorem bar_after_other {number : Bytes} (hother : ∀ m ∈ table, m.number ≠ some number) (b : Bar) :
    b.after (runMain c env n).log number = b number := by
  refine Registers.replay_unwritten ?_
  intro w hw hkey
  obtain ⟨j, argv, hsent, hset⟩ := mem_updates.mp hw
  obtain ⟨u, hu, hmem⟩ := mem_log h hsent
  obtain ⟨m, -, number', -, _, hm, -, hnumber, -, -, -, hset'⟩ := command_of_poll htable h hu hmem
  have hsame : number' = number := by
    rw [← hkey]
    exact congrArg Prod.fst (Option.some.inj (hset'.symm.trans hset))
  exact hother m (List.mem_of_getElem? hm) (hsame ▸ hnumber)

omit h in
theorem updateInterval_pos (h : Undisturbed c env (n + 1)) (hm : table[i]? = some m) :
    0 < m.updateInterval.toNat := by
  have hend := h.finished (Nat.succ_pos n)
  rw [passAt_eq htable hend] at hend
  have hne := interval_ne_zero_of_finished table 0 _ hend m (List.mem_of_getElem? hm)
  exact Nat.pos_of_ne_zero (fun hzero => hne (UInt32.toNat_inj.mp hzero))

omit h in
/-- After pass `n` a module with a number of its own has left the text of the last pass in which
it was due. -/
theorem bar_after_latest (h : Undisturbed c env (n + 1)) (hdistinct : (table.map Arg.number).Nodup)
    (hm : table[i]? = some m) (b : Bar) :
    ∃ number fmt r text, m.number = some number ∧ m.fmt = some fmt ∧
      .poll i (env (m.lastDue n) i) r ∈ (passAt c env (m.lastDue n)).1 ∧
      vsnprintf fmt [r.text.getD (c.unknownString.getD unknownStr)] = some text ∧
      (text.length : Int) < c.maximumStatusLength.toInt ∧
      b.after (runMain c env (n + 1)).log number = text := by
  have hk := updateInterval_pos htable h hm
  have hM : 0 < 2 ^ 32 := Nat.two_pow_pos 32
  refine bar_after_last htable h (Nat.lt_succ_of_le (WrapCounter.latest_le _ _ n)) hm ?_
    (WrapCounter.due_latest hM) ?_ b
  · intro j m' hm' hnumber
    have hj : (table.map Arg.number)[j]? = (table.map Arg.number)[i]? := by
      rw [List.getElem?_map, List.getElem?_map, hm, hm', Option.map_some, Option.map_some, hnumber]
    have hlt : j < (table.map Arg.number).length := by
      rw [List.length_map]
      exact (List.getElem?_eq_some_iff.mp hm').1
    exact (List.getElem?_inj hlt hdistinct).mp hj
  · intro u hu hun
    exact WrapCounter.not_due_after_latest hk hM hu (Nat.le_of_lt_succ hun)

end Run

/-- Whatever signals come while the loop goes on, and past every wrap of the counter: after pass
`n` the bar shows for each module its format applied to the result of the last pass in which it
was due, with the text for unknown values in place of NULL, if no two modules have one number; and
every other text of the bar is as it was. -/
theorem bar_shows_last {c : Config} {table : List Arg} (htable : c.table = .ok table)
    {env : Nat → Nat → Outside} {turns : Nat → Turn} {n : Nat} (h : Undisturbed c env (n + 1))
    (hgoing : Going c env turns (n + 1)) (hdistinct : (table.map Arg.number).Nodup) (b : Bar) :
    (∀ i m, table[i]? = some m → ∃ number fmt r text,
      m.number = some number ∧ m.fmt = some fmt ∧
      .poll i (env (m.lastDue n) i) r ∈ (passAt c env (m.lastDue n)).1 ∧
      vsnprintf fmt [r.text.getD (c.unknownString.getD unknownStr)] = some text ∧
      (text.length : Int) < c.maximumStatusLength.toInt ∧
      b.after (mainLoop c env turns (n + 1)).run.log number = text) ∧
    ∀ number, (∀ m ∈ table, m.number ≠ some number) →
      b.after (mainLoop c env turns (n + 1)).run.log number = b number := by
  rw [mainLoop_run hgoing]
  exact ⟨fun i m hm => bar_after_latest htable h hdistinct hm b,
    fun number hother => bar_after_other htable h hother b⟩

/-- After the pass 10 the text is the one of the pass 9. -/
theorem bar_shows_last_clock : ∃ r text,
    .poll 0 (upEnv 9 0) r ∈ (passAt (clockConfig 3) upEnv 9).1 ∧
      vsnprintf (lit "%s") [r.text.getD unknownStr] = some text ∧
      Bar.after (fun _ => []) (mainLoop (clockConfig 3) upEnv firstInterrupted 11).run.log (lit "1") =
        text := by
  have htable : (clockConfig 3).table = .ok [clock 3] := rfl
  obtain ⟨number, fmt, r, text, hnumber, hfmt, hpoll, htext, -, hbar⟩ :=
    (bar_shows_last htable (clock_undisturbed (by decide) 11)
      (going_firstInterrupted _ _ 11) (List.pairwise_singleton _ _) (fun _ => [])).1 0 (clock 3) rfl
  obtain rfl := Option.some.inj hnumber
  obtain rfl := Option.some.inj hfmt
  exact ⟨r, text, hpoll, htext, hbar⟩

end Slstatus
