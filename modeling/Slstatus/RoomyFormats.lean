import Slstatus.ConfDocument
import Slstatus.LinuxMemory
import Slstatus.Signals

/-! Configurations whose passes always get to their end: every format has room for every text
that a component can return. -/

namespace Slstatus

/-- A format of one `%s` between plain texts, with room for the buffer of the components and for
the text for unknown values. -/
structure Roomy (c : Config) (m : Arg) : Prop where
  fmt : ∃ pre post, m.fmt = some (pre ++ lit "%s" ++ post) ∧ 37 ∉ pre ∧ 37 ∉ post ∧
    ((pre.length + post.length + max 1023 (c.unknownString.getD unknownStr).length : Nat) : Int) <
      c.maximumStatusLength.toInt
  statusNo : ∀ no, m.statusNo = some no → 37 ∉ no

section Format

variable {pre post : Bytes}

theorem parseFormat_append (hpre : 37 ∉ pre) (rest : Bytes) :
    parseFormat .text (pre ++ rest) =
      (parseFormat .text rest).map (pre.map Piece.byte ++ ·) := by
  induction pre with
  | nil => simp
  | cons c pre ih =>
    have hc : c ≠ 37 := fun heq => hpre (heq ▸ List.mem_cons_self)
    rw [List.cons_append, parseFormat, if_neg hc, ih (fun h => hpre (List.mem_cons_of_mem c h)),
      Option.map_map]
    rfl

theorem expand_append (pre : Bytes) (ps : List Piece) (args : List Bytes) :
    expand (pre.map Piece.byte ++ ps) args = (expand ps args).map (pre ++ ·) := by
  induction pre with
  | nil => simp
  | cons c pre ih =>
    rw [List.map_cons, List.cons_append, expand, ih, Option.map_map]
    rfl

theorem vsnprintf_string (hpre : 37 ∉ pre) (hpost : 37 ∉ post) (res : Bytes) :
    vsnprintf (pre ++ lit "%s" ++ post) [res] = some (pre ++ res ++ post) := by
  have hrest : parseFormat .text (lit "%s" ++ post) =
      (parseFormat .text post).map (Piece.string false 0 none :: ·) := rfl
  have hplain : parseFormat .text post = some (post.map Piece.byte) := by
    have h := parseFormat_append hpost []
    rwa [List.append_nil, parseFormat, Option.map_some, List.append_nil] at h
  have hexpand : expand (post.map Piece.byte) [] = some post := by
    have h := expand_append post [] []
    rwa [List.append_nil, expand, Option.map_some, List.append_nil] at h
  rw [vsnprintf, List.append_assoc, parseFormat_append hpre, hrest, hplain, Option.map_some,
    Option.map_some, Option.bind_some, expand_append, expand, hexpand]
  simp [pad]

end Format

section Components

variable {interval : UInt32} {args : Option Bytes} {o : Outside} {s : Statics} {r : Reading}

/-- The result fits the buffer that the components share. -/
def Reading.Fits (r : Reading) : Prop := ∀ text, r.text = some text → text.length < 1024

theorem bprintf_length {t text : Bytes} (h : bprintf t = some text) : text.length < 1024 := by
  by_cases hlong : 1024 ≤ t.length
  · rw [bprintf, if_pos hlong] at h
    cases h
  · rw [bprintf, if_neg hlong] at h
    obtain rfl := Option.some.inj h
    exact Nat.lt_of_not_le hlong

theorem fmtHumanWith_length {prefixes : List Bytes} {base num : Nat} {text : Bytes}
    (h : fmtHumanWith prefixes base num = .ok (some text)) : text.length < 1024 := by
  unfold fmtHumanWith at h
  simp only at h
  split at h
  · cases h
  · exact bprintf_length (Except.ok.inj h)

theorem Reading.human_fits (num : UInt64) : ∃ r, Reading.human num = .ok r ∧ r.Fits := by
  obtain ⟨text, hhuman⟩ := Reading.human_ok num
  refine ⟨_, hhuman, ?_⟩
  intro text' htext
  obtain rfl := Option.some.inj htext
  cases hprint : fmtHuman num 1024 with
  | error f =>
    rw [Reading.human, hprint] at hhuman
    cases hhuman
  | ok printed =>
    rw [Reading.human, hprint] at hhuman
    obtain rfl : printed = some text := (Reading.mk.inj (Except.ok.inj hhuman)).2
    have hwith : fmtHumanWith prefix1024 1024 num.toNat = .ok (some text) := hprint
    exact fmtHumanWith_length hwith

theorem Reading.null_fits : Reading.null.Fits := by
  intro text h
  cases h

theorem netspeed_fits {path interface text : Bytes} (hpath : vsnprintf path [interface] = some text)
    (hinterval : interval ≠ 0) (counter : Option UInt64) (old : UInt64) :
    ∃ r new, netspeed path interval (some interface) counter old = .ok (r, new) ∧ r.Fits := by
  obtain ⟨out, hout⟩ := esnprintf_ok 4096 hpath
  by_cases hret : out.1 < 0
  · exact ⟨.null, old, by simp [netspeed, hout, hret], Reading.null_fits⟩
  · cases counter with
    | none => exact ⟨.null, old, by simp [netspeed, hout], Reading.null_fits⟩
    | some bytes =>
      by_cases hold : old = 0
      · exact ⟨.null, bytes, by simp [netspeed, hout, hret, hold], Reading.null_fits⟩
      · obtain ⟨r, hr, hfits⟩ := Reading.human_fits ((bytes - old) * 1000 / interval.toUInt64)
        exact ⟨r, bytes, by simp [netspeed, hout, hret, hold, hinterval, hr, Except.map], hfits⟩

theorem ioCounter_fits (io : GetIo) (old : UInt64) :
    ∃ r new, ioCounter io old = .ok (r, new) ∧ r.Fits := by
  by_cases hfailed : io.failed = true
  · exact ⟨.null, io.stored.getD old, by simp [ioCounter, hfailed], Reading.null_fits⟩
  · by_cases hold : old = 0
    · exact ⟨.null, io.stored.getD old, by simp [ioCounter, hold], Reading.null_fits⟩
    · obtain ⟨r, hr, hfits⟩ := Reading.human_fits ((io.stored.getD old - old) * 1024)
      exact ⟨r, io.stored.getD old, by simp [ioCounter, hfailed, hold, hr, Except.map], hfits⟩

theorem ioPerc_fits (interval : UInt32) (wait : Option UInt64) (old : UInt64) :
    (ioPerc interval wait old).1.Fits := by
  intro text h
  unfold ioPerc at h
  split at h
  · cases h
  · split at h
    · cases h
    · unfold Reading.quotient at h
      split at h
      · exact bprintf_length h
      · exact bprintf_length h

theorem cpuPerc_fits (stat : Option (List Int)) (b : CpuStat) : (cpuPerc stat b).1.Fits := by
  intro text h
  unfold cpuPerc at h
  split at h
  · cases h
  · simp only at h
    split_ifs at h
    · cases h
    · cases h
    · cases h
    · exact bprintf_length h

theorem netPath_rx (interface : Bytes) : vsnprintf netRxBytes [interface] =
    some (lit "/sys/class/net/" ++ interface ++ lit "/statistics/rx_bytes") := by
  have hsplit : netRxBytes = lit "/sys/class/net/" ++ lit "%s" ++ lit "/statistics/rx_bytes" := by
    decide
  rw [hsplit]
  exact vsnprintf_string (by decide) (by decide) interface

theorem netPath_tx (interface : Bytes) : vsnprintf netTxBytes [interface] =
    some (lit "/sys/class/net/" ++ interface ++ lit "/statistics/tx_bytes") := by
  have hsplit : netTxBytes = lit "/sys/class/net/" ++ lit "%s" ++ lit "/statistics/tx_bytes" := by
    decide
  rw [hsplit]
  exact vsnprintf_string (by decide) (by decide) interface

/-- A component that gets what it relies on returns, and its text fits the buffer. -/
theorem callFunc_fits (hinterval : 1 ≤ interval) (func : Func)
    (hargs : func.readsArgument = true → args ≠ none)
    (ho : ∀ text, o.text = some text → text.length < 1024) :
    ∃ r t, callFunc interval func args o s = .ok (r, t) ∧ r.Fits := by
  have hzero : interval ≠ 0 := by
    intro heq
    rw [heq] at hinterval
    exact absurd hinterval (by decide)
  have houtside : Reading.Fits ⟨none, o.text⟩ := ho
  cases func
  case netspeedRx =>
    obtain ⟨interface, rfl⟩ := Option.ne_none_iff_exists'.mp (hargs rfl)
    obtain ⟨r, new, hr, hfits⟩ := netspeed_fits (netPath_rx interface) hzero o.counter s.rxbytes
    exact ⟨r, { s with rxbytes := new }, by simp only [callFunc, netspeedRx, hr, Except.map], hfits⟩
  case netspeedTx =>
    obtain ⟨interface, rfl⟩ := Option.ne_none_iff_exists'.mp (hargs rfl)
    obtain ⟨r, new, hr, hfits⟩ := netspeed_fits (netPath_tx interface) hzero o.counter s.txbytes
    exact ⟨r, { s with txbytes := new }, by simp only [callFunc, netspeedTx, hr, Except.map], hfits⟩
  case ioIn =>
    obtain ⟨r, new, hr, hfits⟩ := ioCounter_fits o.io s.newin
    exact ⟨r, { s with newin := new }, by simp only [callFunc, ioIn, hr, Except.map], hfits⟩
  case ioOut =>
    obtain ⟨r, new, hr, hfits⟩ := ioCounter_fits o.io s.newout
    exact ⟨r, { s with newout := new }, by simp only [callFunc, ioOut, hr, Except.map], hfits⟩
  case ioPerc => exact ⟨_, _, rfl, ioPerc_fits interval o.wait s.newwait⟩
  case cpuPerc => exact ⟨_, _, rfl, cpuPerc_fits o.stat s.a⟩
  -- the components without samples
  all_goals
    refine ⟨⟨none, o.text⟩, s, ?_, houtside⟩
    simp only [callFunc, Func.readsArgument, Bool.false_and, Bool.true_and, Bool.false_eq_true,
      if_false]
  all_goals
    rw [if_neg]
    simpa using hargs rfl

end Components

section Run

variable {c : Config} {m : Arg} {ms : List Arg} {env : Nat → Nat → Outside}

/-- A text that fits the buffer of the components is sent. -/
theorem Roomy.sends (hm : m.Relied) (h : Roomy c m) {r : Reading} (hr : r.Fits) :
    ∃ argv, sendStatus c.maximumStatusLength.toNatClampNeg m
      (r.text.getD (c.unknownString.getD unknownStr)) = .ok argv := by
  obtain ⟨pre, post, hfmt, hpre, hpost, hroom⟩ := h.fmt
  obtain ⟨no, hno⟩ := Option.ne_none_iff_exists'.mp hm.statusNo
  have hres : (r.text.getD (c.unknownString.getD unknownStr)).length ≤
      max 1023 (c.unknownString.getD unknownStr).length := by
    cases htext : r.text with
    | none => exact Nat.le_max_right _ _
    | some text => exact (Nat.le_of_lt_succ (hr text htext)).trans (Nat.le_max_left _ _)
  have hsize : c.maximumStatusLength.toNatClampNeg = c.maximumStatusLength.toInt.toNat := rfl
  refine sendStatus_ok_iff.mpr ⟨⟨_, _, hfmt, vsnprintf_string hpre hpost _, ?_⟩,
    no, no, hno, vsnprintf_plain [] (h.statusNo no hno)⟩
  rw [List.length_append, List.length_append, hsize]
  omega

theorem moduleLoop_finished {loopCount : UInt32} {input : Nat → Outside} (hinterval : 1 ≤ c.interval)
    (hinput : ∀ i text, (input i).text = some text → text.length < 1024) (k : Nat) (s : Statics)
    (hms : ∀ m ∈ ms, m.Relied ∧ Roomy c m) :
    (moduleLoop (live c.interval) c.maximumStatusLength.toNatClampNeg c.unknownString loopCount input
      k ms s).2.1 = .finished := by
  induction ms generalizing k s with
  | nil => rfl
  | cons m ms ih =>
    obtain ⟨⟨hm, hroomy⟩, hrest⟩ := List.forall_mem_cons.mp hms
    have hzero : m.updateInterval ≠ 0 := by
      intro heq
      have hpos := hm.updateInterval
      rw [heq] at hpos
      exact absurd hpos (by decide)
    by_cases hdue : loopCount % m.updateInterval = 0
    · obtain ⟨func, hfunc⟩ := Option.ne_none_iff_exists'.mp hm.func
      obtain ⟨r, t, hcall, hfits⟩ := callFunc_fits (s := s) hinterval func (hm.args func hfunc) (hinput k)
      obtain ⟨argv, hsend⟩ := hroomy.sends hm hfits
      have hbody := updateModule_sent (K := live c.interval) (k := k) hfunc hcall hsend
      rw [moduleLoop_next hzero hdue hbody]
      exact ih (k + 1) t hrest
    · rw [moduleLoop_skip hzero hdue]
      exact ih (k + 1) s hrest

theorem roomy_undisturbed (hc : c.Relied) (hroomy : ∀ m ∈ c.modules.getD [], Roomy c m)
    (henv : ∀ t i text, (env t i).text = some text → text.length < 1024) (n : Nat) :
    Undisturbed c env n := by
  obtain ⟨ms, hms, hlen, hrel⟩ := hc.modules
  have htable : c.table = .ok ms := by simp [Config.table, hms, ← hlen]
  have hsize : ¬ c.maximumStatusLength < 1 := Int32.not_lt.mpr hc.maximumStatusLength
  rw [hms, Option.getD_some] at hroomy
  have hend : ∀ t, (passAt c env t).2.1 = .finished := by
    intro t
    simp only [passAt, mainTick, if_neg hsize, htable]
    exact moduleLoop_finished hc.interval (henv t) 0 _ (fun m hm => ⟨hrel m hm, hroomy m hm⟩)
  have hrun : (runMain c env n).fault = none := by
    induction n with
    | zero => rfl
    | succ n ih =>
      rw [runMain_succ ih, hend]
      rfl
  refine ⟨?_, hrun⟩
  intro t _ hbroke
  rw [hend] at hbroke
  cases hbroke

end Run

def noonEnv : Nat → Nat → Outside := fun _ _ => { text := some (lit "12:00") }

end Slstatus
