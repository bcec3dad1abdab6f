import Slstatus.Lib.Pace
import Slstatus.MainLife
import Slstatus.StatusBar
import Slstatus.Timespec

/-! The loop by the clock: when its passes start, and how old the texts of the bar get. -/

namespace Slstatus

/-- The reading of the clock so many nanoseconds after its zero. -/
def reading (now : Nat) : Timespec :=
  ⟨Int64.ofNat (now / 1000000000), Int64.ofNat (now % 1000000000)⟩

/-- A turn with the nanoseconds that it takes: from the first reading of the clock to the second,
in its sleep until a signal comes, if one does, and beside both. -/
structure TimedTurn extends Turn where
  busy : Nat := 0
  woken : Nat := 0
  late : Nat := 0

namespace TimedTurn

def nanosleep (u : TimedTurn) (snooze : Timespec) : Option Errno :=
  if snooze.tvSec < 0 ∨ snooze.tvNsec < 0 ∨ 1000000000 ≤ snooze.tvNsec then some .einval
  else if u.interrupted then some .eintr
  else none

/-- How long nanosleep lasts, but for what it is late. -/
def asleep (u : TimedTurn) (snooze : Timespec) : Nat :=
  if u.interrupted then min u.woken snooze.nanos.toNat else snooze.nanos.toNat

end TimedTurn

structure ClockState where
  main : MainState := {}
  now : Nat
  died : Bool := false

def clockTurn (c : Config) (input : Nat → Outside) (u : TimedTurn) (s : ClockState) :
    Except Fault ClockState :=
  let main := turn c input u.toTurn s.main
  let current := s.now + u.busy
  if handle u.pass s.main.done then .ok { s with main := main, now := current }
  else
    match snoozeTurn u.nanosleep c.interval (reading s.now) (reading current) with
    | .error f => .error f
    | .ok .skipped => .ok { s with main := main, now := current + u.late }
    | .ok (.slept snooze) =>
      .ok { s with main := main, now := current + u.asleep snooze + u.late }
    | .ok (.died _) => .ok { main := main, now := current, died := true }

/-- The state after the first `n` turns, or after the turn that ended the loop. -/
def clockLoop (c : Config) (env : Nat → Nat → Outside) (turns : Nat → TimedTurn) (boot : Nat) :
    Nat → Except Fault ClockState
  | 0 => .ok { now := boot }
  | n + 1 =>
    match clockLoop c env turns boot n with
    | .error f => .error f
    | .ok s => if s.main.done ∨ s.died then .ok s else clockTurn c (env n) (turns n) s

def intervalNanos (interval : UInt32) : Nat := interval.toNat * 1000000

/-- How long a turn lasts: for an interval, or for its pass if that is longer. A signal cuts off
what is left of the interval. -/
def TimedTurn.length (interval : UInt32) (u : TimedTurn) : Nat :=
  if u.interrupted then u.busy + min u.woken (intervalNanos interval - u.busy) + u.late
  else max (intervalNanos interval) u.busy + u.late

def startTime (interval : UInt32) (turns : Nat → TimedTurn) (boot : Nat) : Nat → Nat
  | 0 => boot
  | t + 1 => startTime interval turns boot t + (turns t).length interval

/-- The longest turn. -/
def period (interval : UInt32) (busy late : Nat) : Nat := max (intervalNanos interval) busy + late

section Reading

variable {now : Nat}

theorem reading_normal : (reading now).Normal := by
  have hnsec : (reading now).tvNsec.toInt = (now % 1000000000 : Nat) :=
    Int64.toInt_ofNat_of_lt (by omega)
  refine ⟨?_, ?_⟩
  · rw [hnsec]
    omega
  · rw [hnsec]
    omega

theorem reading_nanos (h : now < 2 ^ 63 * 1000000000) :
    (reading now).nanos = now ∧ 0 ≤ (reading now).tvSec.toInt := by
  have hsec : (reading now).tvSec.toInt = (now / 1000000000 : Nat) :=
    Int64.toInt_ofNat_of_lt (by omega)
  have hnsec : (reading now).tvNsec.toInt = (now % 1000000000 : Nat) :=
    Int64.toInt_ofNat_of_lt (by omega)
  rw [Timespec.nanos, hsec, hnsec]
  omega

end Reading

section Turn

variable {c : Config} {input : Nat → Outside} {u : TimedTurn} {s : ClockState}

theorem nanosleep_valid {snooze : Timespec} (hnormal : snooze.Normal)
    (hsec : 0 ≤ snooze.tvSec.toInt) : u.nanosleep snooze ≠ some .einval := by
  have hvalid : ¬ (snooze.tvSec < 0 ∨ snooze.tvNsec < 0 ∨ 1000000000 ≤ snooze.tvNsec) := by
    have hnonneg := hnormal.nonneg
    have hlt := hnormal.lt
    simp only [Int64.lt_iff_toInt_lt, Int64.le_iff_toInt_le, Int64.toInt_zero]
    have hbillion : (1000000000 : Int64).toInt = 1000000000 := rfl
    omega
  rw [TimedTurn.nanosleep, if_neg hvalid]
  split_ifs <;> simp

/-- The time to sleep is what is left of the interval. -/
theorem snoozeTurn_reading {now busy : Nat} (hclock : now + busy < 2 ^ 63 * 1000000000)
    (nanosleep : Timespec → Option Errno) (interval : UInt32) :
    ∃ snooze, snoozeTurn nanosleep interval (reading now) (reading (now + busy)) =
        .ok (sleepFor nanosleep snooze) ∧ snooze.Normal ∧
      snooze.nanos = (intervalNanos interval : Int) - busy := by
  obtain ⟨hstart, hsec⟩ := reading_nanos (Nat.lt_of_le_of_lt (Nat.le_add_right now busy) hclock)
  obtain ⟨hcurrent, -⟩ := reading_nanos hclock
  have hle : (reading now).nanos ≤ (reading (now + busy)).nanos := by
    rw [hstart, hcurrent]
    exact Int.ofNat_le.mpr (Nat.le_add_right now busy)
  obtain ⟨snooze, hturn, hnormal, hnanos⟩ := snoozeTurn_eq reading_normal reading_normal
    (fits_of_nonneg reading_normal reading_normal hsec hle) hle nanosleep interval
  refine ⟨snooze, hturn, hnormal, ?_⟩
  rw [hnanos, hstart, hcurrent, intervalNanos, Int.natCast_add, Int.natCast_mul]
  omega

/-- The sleep takes what is left of the interval, and the loop goes on. -/
theorem clockTurn_eq (hpass : handle u.pass s.main.done = false)
    (hclock : s.now + u.busy < 2 ^ 63 * 1000000000) :
    clockTurn c input u s = .ok { s with
      main := turn c input u.toTurn s.main, now := s.now + u.length c.interval } := by
  obtain ⟨snooze, hturn, hnormal, hnanos⟩ := snoozeTurn_reading hclock u.nanosleep c.interval
  clear hclock
  rw [clockTurn]
  simp only [hpass, reduceCtorEq, if_false, hturn]
  by_cases hlong : u.busy ≤ intervalNanos c.interval
  · have hnat : snooze.nanos.toNat = intervalNanos c.interval - u.busy := by omega
    have hnonneg : 0 ≤ snooze.nanos := by omega
    have hpos : 0 ≤ snooze.tvSec.toInt := by
      rw [hnormal.tvSec_eq]
      exact Int.ediv_nonneg hnonneg (by decide)
    have hlength : s.now + u.busy + u.asleep snooze + u.late = s.now + u.length c.interval := by
      rw [TimedTurn.asleep, TimedTurn.length, hnat]
      split_ifs <;> omega
    simp only [sleepFor_nonneg hpos (nanosleep_valid hnormal hpos), hlength]
  · have hneg : snooze.tvSec.toInt < 0 := by
      rw [hnormal.tvSec_neg_iff, hnanos]
      omega
    have hlength : s.now + u.busy + u.late = s.now + u.length c.interval := by
      rw [TimedTurn.length]
      split_ifs <;> omega
    simp only [sleepFor_neg hneg, hlength]

theorem length_le {busy late : Nat} (hbusy : u.busy ≤ busy) (hlate : u.late ≤ late) :
    u.length c.interval ≤ period c.interval busy late := by
  rw [TimedTurn.length, period]
  split_ifs <;> omega

theorem le_length (h : u.interrupted = false) : intervalNanos c.interval ≤ u.length c.interval := by
  rw [TimedTurn.length, h, if_neg Bool.false_ne_true]
  omega

end Turn

section Run

variable {c : Config} {env : Nat → Nat → Outside} {turns : Nat → TimedTurn} {n boot busy late : Nat}

theorem startTime_le (hbusy : ∀ t ≤ n, (turns t).busy ≤ busy) (hlate : ∀ t ≤ n, (turns t).late ≤ late)
    {t d : Nat} (h : t + d ≤ n + 1) :
    startTime c.interval turns boot (t + d) ≤
      startTime c.interval turns boot t + d * period c.interval busy late :=
  Pace.le_add fun u _ hlt =>
    Nat.add_le_add_left (length_le (hbusy u (by omega)) (hlate u (by omega))) _

/-- The loop by the clock is the loop, and its passes start when the lengths of the turns say. -/
theorem clockLoop_eq (hgoing : ∀ t < n, (turns t).ends = false)
    (hclock : ∀ t < n, startTime c.interval turns boot t + (turns t).busy < 2 ^ 63 * 1000000000) :
    clockLoop c env turns boot n = .ok {
      main := mainLoop c env (fun t => (turns t).toTurn) n
      now := startTime c.interval turns boot n } := by
  induction n with
  | zero => rfl
  | succ n ih =>
    have hbefore := ih (fun t ht => hgoing t (Nat.lt_succ_of_lt ht))
      (fun t ht => hclock t (Nat.lt_succ_of_lt ht))
    have hgo : Going c env (fun t => (turns t).toTurn) (n + 1) :=
      going_iff.mpr (fun t ht => hgoing t (Nat.lt_succ_of_lt ht))
    have hdone := hgo n (Nat.lt_succ_self n)
    have hpass : handle (turns n).pass (mainLoop c env (fun t => (turns t).toTurn) n).done =
        false := by
      have hends := hgoing n (Nat.lt_succ_self n)
      rw [TimedTurn.toTurn, Turn.ends, Bool.or_eq_false_iff] at hends
      rw [hdone, handle_eq, hends.1]
      rfl
    rw [clockLoop, hbefore]
    simp only [hdone, reduceCtorEq, or_self, if_false]
    refine (clockTurn_eq hpass (hclock n (Nat.lt_succ_self n))).trans ?_
    rw [mainLoop_succ hdone]
    rfl

theorem le_startTime {t d : Nat}
    (h : ∀ u, t ≤ u → u < t + d → (turns u).interrupted = false) :
    startTime c.interval turns boot t + d * intervalNanos c.interval ≤
      startTime c.interval turns boot (t + d) :=
  Pace.add_le fun u hu hlt => Nat.add_le_add_left (le_length (h u hu hlt)) _

end Run

section Undisturbed

variable {c : Config} {table : List Arg} {env : Nat → Nat → Outside} {turns : Nat → TimedTurn}
  {n i boot busy late : Nat} {m : Arg}

/-- When the next pass is to start. -/
theorem age_le (htable : c.table = .ok table) (h : Undisturbed c env (n + 1))
    (hbusy : ∀ t ≤ n, (turns t).busy ≤ busy) (hlate : ∀ t ≤ n, (turns t).late ≤ late)
    (hm : table[i]? = some m) :
    startTime c.interval turns boot (n + 1) ≤ startTime c.interval turns boot (m.lastDue n) +
      m.updateInterval.toNat * period c.interval busy late := by
  have hle : m.lastDue n ≤ n := WrapCounter.latest_le _ _ n
  have hlt : n < m.lastDue n + m.updateInterval.toNat :=
    WrapCounter.lt_latest_add (updateInterval_pos htable h hm)
  obtain ⟨d, hd⟩ : ∃ d, n + 1 = m.lastDue n + d := ⟨n + 1 - m.lastDue n, by omega⟩
  rw [hd]
  refine (startTime_le hbusy hlate (Nat.le_of_eq hd.symm)).trans ?_
  exact Nat.add_le_add_left (Nat.mul_le_mul_right _ (by omega)) _

theorem polls_apart (htable : c.table = .ok table) (h : Undisturbed c env (n + 1))
    (hm : table[i]? = some m) {t t' : Nat} (hlt : t < t') (hn : t' ≤ n) (ht : Polled c env i t)
    (ht' : Polled c env i t') (hwrap : n < 2 ^ 32 ∨ m.updateInterval.toNat ∣ 2 ^ 32) :
    m.updateInterval.toNat ≤ t' - t := by
  rw [polled_iff htable h hm (by omega), WrapCounter.dvd_mod_iff hwrap (by omega)] at ht ht'
  exact Nat.le_of_dvd (Nat.sub_pos_of_lt hlt) (Nat.dvd_sub ht' ht)

end Undisturbed

/-- As long as neither INT nor TERM comes, every pass starts when the lengths of the turns before
it say. When the next pass is to start, no text of the bar is older than as many of the longest
turns as the module's interval has passes; and two polls of a module between which no signal cuts
off a sleep are at least as many intervals apart, unless the counter wraps off its beat. -/
theorem bar_age {c : Config} {table : List Arg} (htable : c.table = .ok table)
    {env : Nat → Nat → Outside} {turns : Nat → TimedTurn} {n : Nat} (h : Undisturbed c env (n + 1))
    (hgoing : ∀ t < n, (turns t).ends = false) (hdistinct : (table.map Arg.number).Nodup)
    {boot busy late : Nat} (hbusy : ∀ t ≤ n, (turns t).busy ≤ busy)
    (hlate : ∀ t ≤ n, (turns t).late ≤ late)
    (hclock : boot + (n + 1) * period c.interval busy late < 2 ^ 63 * 1000000000) (b : Bar) :
    clockLoop c env turns boot n = .ok {
      main := mainLoop c env (fun t => (turns t).toTurn) n
      now := startTime c.interval turns boot n } ∧
    (∀ i m, table[i]? = some m → ∃ number fmt r text, m.number = some number ∧ m.fmt = some fmt ∧
      .poll i (env (m.lastDue n) i) r ∈ (passAt c env (m.lastDue n)).1 ∧
      vsnprintf fmt [r.text.getD (c.unknownString.getD unknownStr)] = some text ∧
      b.after (mainLoop c env (fun t => (turns t).toTurn) (n + 1)).run.log number = text ∧
      startTime c.interval turns boot (n + 1) ≤ startTime c.interval turns boot (m.lastDue n) +
        m.updateInterval.toNat * period c.interval busy late) ∧
    ∀ i m t t', table[i]? = some m → t < t' → t' ≤ n → Polled c env i t → Polled c env i t' →
      (∀ u, t ≤ u → u < t' → (turns u).interrupted = false) →
      n < 2 ^ 32 ∨ m.updateInterval.toNat ∣ 2 ^ 32 →
      startTime c.interval turns boot t + m.updateInterval.toNat * intervalNanos c.interval ≤
        startTime c.interval turns boot t' := by
  refine ⟨clockLoop_eq hgoing ?_, ?_, ?_⟩
  · intro t ht
    have hstart : startTime c.interval turns boot (0 + t) ≤
        boot + t * period c.interval busy late := startTime_le hbusy hlate (by omega)
    rw [Nat.zero_add] at hstart
    have hpass : (turns t).busy ≤ period c.interval busy late :=
      (hbusy t (Nat.le_of_lt ht)).trans ((Nat.le_max_right _ _).trans (Nat.le_add_right _ _))
    calc startTime c.interval turns boot t + (turns t).busy
        ≤ boot + t * period c.interval busy late + period c.interval busy late :=
          Nat.add_le_add hstart hpass
      _ = boot + (t + 1) * period c.interval busy late := by ring
      _ ≤ boot + (n + 1) * period c.interval busy late :=
          Nat.add_le_add_left (Nat.mul_le_mul_right _ (Nat.succ_le_succ (Nat.le_of_lt ht))) _
      _ < 2 ^ 63 * 1000000000 := hclock
  · intro i m hm
    obtain ⟨number, fmt, r, text, hnumber, hfmt, hpoll, htext, -, hbar⟩ :=
      bar_after_latest htable h hdistinct hm b
    refine ⟨number, fmt, r, text, hnumber, hfmt, hpoll, htext, ?_, age_le htable h hbusy hlate hm⟩
    rw [mainLoop_run (going_iff.mpr hgoing)]
    exact hbar
  · intro i m t t' hm hlt hn ht ht' hquiet hwrap
    have hapart := polls_apart htable h hm hlt hn ht ht' hwrap
    obtain ⟨d, rfl⟩ : ∃ d, t' = t + d := ⟨t' - t, by omega⟩
    refine Nat.le_trans ?_ (le_startTime hquiet)
    exact Nat.add_le_add_left (Nat.mul_le_mul_right _ (by omega)) _

/-- Passes of a millisecond, and sleeps that are late by a twentieth of one. -/
def ticking : Nat → TimedTurn := fun _ => { busy := 1000000, late := 50000 }

theorem bar_age_ticking :
    startTime 1000 ticking 0 11 ≤ startTime 1000 ticking 0 9 + 3 * 1000050000 ∧
    startTime 1000 ticking 0 6 + 3 * 1000000000 ≤ startTime 1000 ticking 0 9 := by
  have htable : (clockConfig 3).table = .ok [clock 3] := rfl
  have hrun := clock_undisturbed (k := 3) (by decide) 11
  have hquiet : ∀ t < 10, (ticking t).ends = false := fun _ _ => rfl
  obtain ⟨-, hage, hapart⟩ := bar_age htable hrun hquiet
    (List.pairwise_singleton _ _) (fun _ _ => Nat.le_refl 1000000) (fun _ _ => Nat.le_refl 50000)
    (show 0 + 11 * 1000050000 < 2 ^ 63 * 1000000000 by decide) (fun _ => [])
  obtain ⟨-, -, -, -, -, -, -, -, -, hold⟩ := hage 0 (clock 3) rfl
  have hpolled : ∀ t < 11, 3 ∣ t → Polled (clockConfig 3) upEnv 0 t := by
    intro t ht hdvd
    rw [polled_iff htable hrun rfl ht, Nat.mod_eq_of_lt (by omega)]
    exact hdvd
  exact ⟨hold, hapart 0 (clock 3) 6 9 rfl (by decide) (by decide) (hpolled 6 (by decide) (by decide))
    (hpolled 9 (by decide) (by decide)) (fun _ _ _ => rfl) (.inl (by decide))⟩

end Slstatus
