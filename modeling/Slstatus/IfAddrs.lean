import Slstatus.RoomyFormats

/-! The components that walk the list of getifaddrs: ip.c, and netspeeds.c on OpenBSD and
FreeBSD. The samples of the latter are compared with those that Linux keeps. -/

namespace Slstatus

/-- An address, with what `getnameinfo` makes of it. -/
structure SockAddr where
  family : UInt16
  host : Option Bytes

structure IfData where
  ifiIbytes : UInt64
  ifiObytes : UInt64

structure IfAddr where
  ifaName : Bytes
  ifaAddr : Option SockAddr := none
  ifaFlags : UInt32 := 0
  ifaData : Option IfData := none

def ipLoop (interface : Bytes) (saFamily : UInt16) : List IfAddr → Option Bytes
  | [] => none
  | ifa :: rest =>
    match ifa.ifaAddr with
    | none => ipLoop interface saFamily rest
    | some addr =>
      if ifa.ifaName ≠ interface ∨ addr.family ≠ saFamily then ipLoop interface saFamily rest
      else
        match addr.host with
        | none => none
        | some host => bprintf host

/-- `ifaddr` is `none` where `getifaddrs` fails. -/
def ip (interface : Bytes) (saFamily : UInt16) (ifaddr : Option (List IfAddr)) : Option Bytes :=
  ifaddr.bind (ipLoop interface saFamily)

def ipv4 (interface : Bytes) := ip interface 2

/-- `AF_INET6` is 10 on Linux. -/
def ipv6 (interface : Bytes) := ip interface 10

def upLoop (interface : Bytes) : List IfAddr → Option Bytes
  | [] => none
  | ifa :: rest =>
    match ifa.ifaAddr with
    | none => upLoop interface rest
    | some _ =>
      if ifa.ifaName = interface then
        some (if ifa.ifaFlags &&& 1 ≠ 0 then lit "up" else lit "down")
      else upLoop interface rest

def up (interface : Bytes) (ifaddr : Option (List IfAddr)) : Option Bytes :=
  ifaddr.bind (upLoop interface)

namespace Bsd

variable (ifiBytes : IfData → UInt64) (interval : UInt32) (interface : Bytes)

/-- The loop, with the sum that it leaves in the static variable and with `if_ok`. -/
def addBytes : List IfAddr → UInt64 → Bool → UInt64 × Bool
  | [], bytes, ifOk => (bytes, ifOk)
  | ifa :: rest, bytes, ifOk =>
    if ifa.ifaName = interface then
      match ifa.ifaData with
      | none => addBytes rest bytes ifOk
      | some ifd => addBytes rest (bytes + ifiBytes ifd) true
    else addBytes rest bytes ifOk

/-- The common body of `netspeed_rx` and `netspeed_tx`. -/
def netspeed (ifal : Option (List IfAddr)) (old : UInt64) : Except Fault (Reading × UInt64) :=
  match ifal with
  | none => .ok (.null, old)
  | some ifal =>
    let (bytes, ifOk) := addBytes ifiBytes interface ifal 0 false
    if !ifOk then .ok (.null, bytes)
    else if old = 0 then .ok (.null, bytes)
    else if interval = 0 then .error .divByZero
    else (Reading.human ((bytes - old) * 1000 / interval.toUInt64)).map (·, bytes)

def netspeedRx := netspeed IfData.ifiIbytes

def netspeedTx := netspeed IfData.ifiObytes

end Bsd

/-- What a call finds of its interface. -/
inductive Poll
  | failed
  | absent
  | listed (bytes : UInt64)
  deriving DecidableEq

def Poll.counter : Poll → Option UInt64
  | .listed bytes => some bytes
  | _ => none

def polled (ifiBytes : IfData → UInt64) (interface : Bytes) : Option (List IfAddr) → Poll
  | none => .failed
  | some ifal =>
    let (bytes, ifOk) := Bsd.addBytes ifiBytes interface ifal 0 false
    if ifOk then .listed bytes else .absent

/-- An interface whose counter was seen is missed, and later listed again. -/
def ComesBack (polls : List Poll) : Prop :=
  ∃ before n rest, polls = before ++ .listed n :: rest ∧ n ≠ 0 ∧
    ∃ gap m after, rest = gap ++ .listed m :: after ∧ .absent ∈ gap ∧ ∀ p ∈ gap, p.counter = none

/-- `missed` says what becomes of the sample when the interface is not there. -/
def Poll.step (interval : UInt32) (missed : UInt64 → UInt64) :
    Poll → UInt64 → Except Fault (Reading × UInt64)
  | .failed, old => .ok (.null, old)
  | .absent, old => .ok (.null, missed old)
  | .listed bytes, old =>
    if old = 0 then .ok (.null, bytes)
    else if interval = 0 then .error .divByZero
    else (Reading.human ((bytes - old) * 1000 / interval.toUInt64)).map (·, bytes)

section Steps

variable {ifiBytes : IfData → UInt64} {interval : UInt32} {interface : Bytes} {old n : UInt64}

theorem addBytes_ok (ifal : List IfAddr) (bytes : UInt64) :
    (Bsd.addBytes ifiBytes interface ifal bytes true).2 = true := by
  induction ifal generalizing bytes with
  | nil => rfl
  | cons ifa ifal ih =>
    rw [Bsd.addBytes]
    split
    · split
      · exact ih bytes
      · exact ih _
    · exact ih bytes

theorem addBytes_missing {ifal : List IfAddr} {bytes : UInt64}
    (h : (Bsd.addBytes ifiBytes interface ifal bytes false).2 = false) :
    (Bsd.addBytes ifiBytes interface ifal bytes false).1 = bytes := by
  induction ifal with
  | nil => rfl
  | cons ifa ifal ih =>
    rw [Bsd.addBytes] at h ⊢
    split at h
    · split at h
      · rename_i hname _ _
        simp only [hname, if_true]
        exact ih h
      · rw [addBytes_ok] at h
        cases h
    · rename_i hname
      rw [if_neg hname]
      exact ih h

theorem bsd_netspeed_poll (ifal : Option (List IfAddr)) :
    Bsd.netspeed ifiBytes interval interface ifal old =
      (polled ifiBytes interface ifal).step interval (fun _ => 0) old := by
  cases ifal with
  | none => rfl
  | some ifal =>
    cases hok : (Bsd.addBytes ifiBytes interface ifal 0 false).2 with
    | false => simp [Bsd.netspeed, polled, hok, Poll.step, addBytes_missing hok]
    | true => simp [Bsd.netspeed, polled, hok, Poll.step]

theorem linux_netspeed_poll {path text : Bytes} (hpath : vsnprintf path [interface] = some text)
    (hlen : text.length < 4096) (poll : Poll) :
    netspeed path interval (some interface) poll.counter old = poll.step interval id old := by
  have hfits : ¬ (text.length : Int) < 0 := Int.not_lt.mpr (Int.natCast_nonneg _)
  cases poll <;> simp [netspeed, esnprintf_fits hpath hlen, Poll.counter, Poll.step]

end Steps

/-- `gone` says whether the interface was missed since `old` was sampled. -/
def comesBackLoop : UInt64 → Bool → List Poll → Prop
  | _, _, [] => False
  | old, gone, .failed :: polls => comesBackLoop old gone polls
  | old, _, .absent :: polls => comesBackLoop old true polls
  | old, gone, .listed n :: polls => (old ≠ 0 ∧ gone = true) ∨ comesBackLoop n false polls

section Agree

variable {interval : UInt32}

theorem sample_shown (hinterval : interval ≠ 0) {old : UInt64} (hold : old ≠ 0) (n : UInt64)
    (missed : UInt64 → UInt64) :
    ∃ r, Poll.step interval missed (.listed n) old = .ok (r, n) ∧ r.text ≠ none := by
  obtain ⟨text, htext⟩ := Reading.human_ok ((n - old) * 1000 / interval.toUInt64)
  refine ⟨⟨some ((n - old) * 1000 / interval.toUInt64).toNat, some text⟩, ?_,
    Option.some_ne_none text⟩
  rw [Poll.step, if_neg hold, if_neg hinterval, htext]
  rfl

theorem sample_first {old : UInt64} (hold : old = 0) (n : UInt64) (missed : UInt64 → UInt64) :
    Poll.step interval missed (.listed n) old = .ok (.null, n) := by
  rw [Poll.step, if_pos hold]

/-- The induction is over the polls. Where `gone` holds, one variant has forgotten the sample. -/
theorem replay_eq_iff (hinterval : interval ≠ 0) (polls : List Poll) (old : UInt64) (gone : Bool) :
    CallLog.replay (Poll.step interval (fun _ => 0)) polls (if gone then 0 else old) =
      CallLog.replay (Poll.step interval id) polls old ↔ ¬ comesBackLoop old gone polls := by
  induction polls generalizing old gone with
  | nil => exact iff_of_true rfl id
  | cons poll polls ih =>
    cases poll with
    | failed =>
      rw [CallLog.replay_cons rfl, CallLog.replay_cons rfl, List.cons_inj_right]
      exact ih old gone
    | absent =>
      rw [CallLog.replay_cons rfl, CallLog.replay_cons rfl, List.cons_inj_right]
      exact ih old true
    | listed n =>
      have hnext := ih n false
      by_cases hold : old = 0
      · have hbsd : (if gone then 0 else old) = 0 := by simp [hold]
        rw [CallLog.replay_cons (sample_first hbsd n _), CallLog.replay_cons (sample_first hold n _),
          List.cons_inj_right]
        simpa [comesBackLoop, hold] using hnext
      · cases gone with
        | false =>
          obtain ⟨r, hr, -⟩ := sample_shown hinterval hold n id
          have hr' : Poll.step interval (fun _ => 0) (.listed n) old = .ok (r, n) := hr
          rw [if_neg Bool.false_ne_true, CallLog.replay_cons hr, CallLog.replay_cons hr',
            List.cons_inj_right]
          simpa [comesBackLoop] using hnext
        | true =>
          obtain ⟨r, hr, htext⟩ := sample_shown hinterval hold n id
          rw [if_pos rfl, CallLog.replay_cons hr, CallLog.replay_cons (sample_first rfl n _)]
          refine iff_of_false ?_ (not_not.mpr (.inl ⟨hold, rfl⟩))
          intro heq
          exact htext (congrArg Reading.text (List.cons.inj heq).1).symm

/-- The interface is listed, after a poll that misses it unless it is gone already. -/
def Relisted (gone : Bool) (polls : List Poll) : Prop :=
  ∃ gap m after, polls = gap ++ .listed m :: after ∧ (gone = true ∨ .absent ∈ gap) ∧
    ∀ p ∈ gap, p.counter = none

variable {gone : Bool} {n : UInt64} {poll : Poll} {polls : List Poll}

theorem relisted_listed : Relisted gone (.listed n :: polls) ↔ gone = true := by
  constructor
  · rintro ⟨gap, m, after, hsplit, hgone, hgap⟩
    cases gap with
    | nil => exact hgone.resolve_right List.not_mem_nil
    | cons p gap =>
      obtain ⟨rfl, -⟩ := List.cons.inj hsplit
      cases hgap _ List.mem_cons_self
  · intro hgone
    exact ⟨[], n, polls, rfl, .inl hgone, fun p hp => absurd hp List.not_mem_nil⟩

theorem relisted_missed (hpoll : poll.counter = none) :
    Relisted gone (poll :: polls) ↔ Relisted (gone || poll = .absent) polls := by
  simp only [Relisted, Bool.or_eq_true, decide_eq_true_eq]
  constructor
  · rintro ⟨gap, m, after, hsplit, hgone, hgap⟩
    cases gap with
    | nil =>
      obtain ⟨rfl, -⟩ := List.cons.inj hsplit
      cases hpoll
    | cons p gap =>
      obtain ⟨rfl, rfl⟩ := List.cons.inj hsplit
      refine ⟨gap, m, after, rfl, ?_, fun q hq => hgap q (List.mem_cons_of_mem _ hq)⟩
      rw [List.mem_cons, ← or_assoc] at hgone
      exact hgone.imp_left (Or.imp_right Eq.symm)
  · rintro ⟨gap, m, after, rfl, hgone, hgap⟩
    refine ⟨poll :: gap, m, after, rfl, ?_, List.forall_mem_cons.mpr ⟨hpoll, hgap⟩⟩
    rw [List.mem_cons, ← or_assoc]
    exact hgone.imp_left (Or.imp_right Eq.symm)

theorem comesBack_missed (hpoll : poll.counter = none) :
    ComesBack (poll :: polls) ↔ ComesBack polls := by
  constructor
  · rintro ⟨before, n, rest, hsplit, hback⟩
    cases before with
    | nil =>
      obtain ⟨rfl, -⟩ := List.cons.inj hsplit
      cases hpoll
    | cons p before => exact ⟨before, n, rest, (List.cons.inj hsplit).2, hback⟩
  · rintro ⟨before, n, rest, rfl, hback⟩
    exact ⟨poll :: before, n, rest, rfl, hback⟩

theorem comesBack_listed :
    ComesBack (.listed n :: polls) ↔ (n ≠ 0 ∧ Relisted false polls) ∨ ComesBack polls := by
  constructor
  · rintro ⟨before, k, rest, hsplit, hk, hback⟩
    cases before with
    | nil =>
      obtain ⟨hn, rfl⟩ := List.cons.inj hsplit
      cases hn
      obtain ⟨gap, m, after, hrest, habsent, hgap⟩ := hback
      exact .inl ⟨hk, gap, m, after, hrest, .inr habsent, hgap⟩
    | cons p before => exact .inr ⟨before, k, rest, (List.cons.inj hsplit).2, hk, hback⟩
  · rintro (⟨hn, gap, m, after, hrest, habsent, hgap⟩ | ⟨before, k, rest, rfl, hback⟩)
    · exact ⟨[], n, polls, rfl, hn, gap, m, after, hrest, habsent.resolve_left Bool.false_ne_true,
        hgap⟩
    · exact ⟨.listed n :: before, k, rest, rfl, hback⟩

/-- Either all of it is ahead, or the interface that was sampled is yet to be listed again. -/
theorem comesBackLoop_iff (polls : List Poll) (old : UInt64) (gone : Bool) :
    comesBackLoop old gone polls ↔ ComesBack polls ∨ (old ≠ 0 ∧ Relisted gone polls) := by
  induction polls generalizing old gone with
  | nil => simp [comesBackLoop, ComesBack, Relisted]
  | cons poll polls ih =>
    cases poll with
    | failed =>
      rw [comesBackLoop, ih, comesBack_missed rfl, relisted_missed rfl]
      simp
    | absent =>
      rw [comesBackLoop, ih, comesBack_missed rfl, relisted_missed rfl]
      simp
    | listed n =>
      rw [comesBackLoop, ih, comesBack_listed, relisted_listed]
      constructor
      · intro h
        rcases h with h | h | h
        · exact .inr h
        · exact .inl (.inr h)
        · exact .inl (.inl h)
      · intro h
        rcases h with (h | h) | h
        · exact .inr (.inr h)
        · exact .inr (.inl h)
        · exact .inl h

end Agree

theorem netspeed_replay_iff {ifiBytes : IfData → UInt64} {interface path text : Bytes}
    (hpath : vsnprintf path [interface] = some text) (hlen : text.length < 4096)
    {interval : UInt32} (hinterval : interval ≠ 0) (lists : List (Option (List IfAddr))) :
    CallLog.replay (Bsd.netspeed ifiBytes interval interface) lists 0 =
      CallLog.replay (netspeed path interval (some interface))
        (lists.map (fun l => (polled ifiBytes interface l).counter)) 0 ↔
    ¬ ComesBack (lists.map (polled ifiBytes interface)) := by
  have hbsd : Bsd.netspeed ifiBytes interval interface =
      fun l => (polled ifiBytes interface l).step interval (fun _ => 0) := by
    funext l old
    exact bsd_netspeed_poll l
  have hlinux : (fun l => netspeed path interval (some interface)
      (polled ifiBytes interface l).counter) =
      fun l => (polled ifiBytes interface l).step interval id := by
    funext l old
    exact linux_netspeed_poll hpath hlen _
  have hloop := replay_eq_iff hinterval (lists.map (polled ifiBytes interface)) 0 false
  rw [comesBackLoop_iff, CallLog.replay_map, CallLog.replay_map] at hloop
  rw [CallLog.replay_map, hbsd, hlinux]
  simpa using hloop

/-- Polled alike, the variants return the same on every call exactly if the interface, once its
counter was seen, never is missed and listed again. Then Linux shows the difference to the sample
before the gap, and the others forget it. -/
theorem netspeed_variants_agree_iff {interface : Bytes} (hname : interface.length < 16)
    {interval : UInt32} (hinterval : interval ≠ 0) (lists : List (Option (List IfAddr))) :
    (CallLog.replay (Bsd.netspeedRx interval interface) lists 0 =
        CallLog.replay (netspeedRx interval (some interface))
          (lists.map (fun l => (polled IfData.ifiIbytes interface l).counter)) 0 ↔
      ¬ ComesBack (lists.map (polled IfData.ifiIbytes interface))) ∧
    (CallLog.replay (Bsd.netspeedTx interval interface) lists 0 =
        CallLog.replay (netspeedTx interval (some interface))
          (lists.map (fun l => (polled IfData.ifiObytes interface l).counter)) 0 ↔
      ¬ ComesBack (lists.map (polled IfData.ifiObytes interface))) := by
  have hfits : ∀ post : Bytes, post.length = 20 →
      (lit "/sys/class/net/" ++ interface ++ post).length < 4096 := by
    intro post hpost
    have hpre : (lit "/sys/class/net/").length = 15 := by decide +kernel
    rw [List.length_append, List.length_append]
    omega
  exact ⟨netspeed_replay_iff (netPath_rx interface) (hfits _ (by decide +kernel)) hinterval lists,
    netspeed_replay_iff (netPath_tx interface) (hfits _ (by decide +kernel)) hinterval lists⟩

/-- The counter of em0 starts again after the call that does not find it. -/
def emLists : List (Option (List IfAddr)) :=
  [some [{ ifaName := lit "em0", ifaData := some ⟨6000, 6000⟩ }], some [],
    some [{ ifaName := lit "em0", ifaData := some ⟨1000, 1000⟩ }]]

theorem netspeed_variants_differ :
    CallLog.replay (Bsd.netspeedRx 1000 (lit "em0")) emLists 0 ≠
      CallLog.replay (netspeedRx 1000 (some (lit "em0")))
        (emLists.map (fun l => (polled IfData.ifiIbytes (lit "em0") l).counter)) 0 := by
  intro h
  refine (netspeed_variants_agree_iff (by decide +kernel) (by decide) emLists).1.mp h ?_
  refine ⟨[], 6000, [.absent, .listed 1000], ?_, by decide, [.absent], 1000, [], rfl, ?_, ?_⟩
  · decide +kernel
  · exact List.mem_cons_self
  · decide

end Slstatus
