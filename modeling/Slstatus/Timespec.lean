import Mathlib.Algebra.Group.Int.Defs
import Mathlib.Algebra.Group.Nat.Defs
import Slstatus.Basic
import Slstatus.Lib.CInt

/-! `difftimespec` of slstatus.c and the sleep that ends a turn of the main loop. `time_t`
and `long` have 64 bits, and a signed operation that does not fit is a fault. -/

namespace Slstatus

/-- `struct timespec`. -/
structure Timespec where
  tvSec : Int64
  tvNsec : Int64
  deriving DecidableEq

def asLong (z : Int) : Except Fault Int64 :=
  if CInt.Ty.long.Holds z then .ok (Int64.ofInt z) else .error .overflow

/-- A whole number as a `double`: 53 significant bits, to the nearest, ties to even. -/
def double (z : Int) : Int :=
  let unit := 2 ^ (z.natAbs.log2 - 52)
  let n := z.natAbs / unit
  let rest := z.natAbs % unit
  let rounded := if 2 * rest < unit then n else if unit < 2 * rest then n + 1 else n + n % 2
  z.sign * (rounded * unit : Nat)

def borrow (a b : Timespec) : Int := if a.tvNsec < b.tvNsec then 1 else 0

def difftimespec (a b : Timespec) : Except Fault Timespec := do
  let sec ← asLong (a.tvSec.toInt - b.tvSec.toInt)
  let tvSec ← asLong (sec.toInt - borrow a b)
  let nsec ← asLong (a.tvNsec.toInt - b.tvNsec.toInt)
  -- 1E9 is a double, so the sum is one
  let tvNsec ← asLong (double (double nsec.toInt + double (borrow a b * 1000000000)))
  return ⟨tvSec, tvNsec⟩

def intspec (interval : UInt32) : Except Fault Timespec := do
  let tvSec ← asLong (interval.toNat / 1000 : Nat)
  let tvNsec ← asLong (double (double (interval.toNat % 1000 : Nat) * 1000000))
  return ⟨tvSec, tvNsec⟩

/-- The ways `nanosleep` fails; the address of a variable never gives EFAULT. -/
inductive Errno
  | eintr | einval
  deriving DecidableEq

/-- How the sleep of one turn ends, with the time that `nanosleep` was called for. -/
inductive Snooze
  | skipped
  | slept (snooze : Timespec)
  | died (snooze : Timespec)
  deriving DecidableEq

def sleepFor (nanosleep : Timespec → Option Errno) (snooze : Timespec) : Snooze :=
  if 0 ≤ snooze.tvSec then
    match nanosleep snooze with
    | none => .slept snooze
    | some errno => if errno ≠ .eintr then .died snooze else .slept snooze
  else .skipped

def snoozeTurn (nanosleep : Timespec → Option Errno) (interval : UInt32)
    (start current : Timespec) : Except Fault Snooze := do
  let diff ← difftimespec current start
  let spec ← intspec interval
  let snooze ← difftimespec spec diff
  return sleepFor nanosleep snooze

namespace Timespec

structure Normal (t : Timespec) : Prop where
  nonneg : 0 ≤ t.tvNsec.toInt
  lt : t.tvNsec.toInt < 1000000000

def nanos (t : Timespec) : Int := t.tvSec.toInt * 1000000000 + t.tvNsec.toInt

/-- The seconds of the difference stay in `time_t`, before the borrow and after it. -/
def Fits (a b : Timespec) : Prop :=
  CInt.Ty.long.Holds (a.tvSec.toInt - b.tvSec.toInt) ∧
    CInt.Ty.long.Holds (a.tvSec.toInt - b.tvSec.toInt - borrow a b)

variable {t a b : Timespec}

theorem Normal.tvSec_eq (ht : t.Normal) : t.tvSec.toInt = t.nanos / 1000000000 := by
  have hnonneg := ht.nonneg
  have hlt := ht.lt
  rw [nanos]
  omega

theorem Normal.tvSec_neg_iff (ht : t.Normal) : t.tvSec.toInt < 0 ↔ t.nanos < 0 := by
  rw [ht.tvSec_eq]
  omega

end Timespec

theorem ok_bind {α β : Type} {x : α} {f : α → Except Fault β} : (Except.ok x >>= f) = f x := rfl

theorem asLong_ok {z : Int} (h : CInt.Ty.long.Holds z) : ∃ x, asLong z = .ok x ∧ x.toInt = z :=
  ⟨Int64.ofInt z, if_pos h, Int64.toInt_ofInt_of_le h.1 h.2⟩

theorem asLong_holds {z : Int} {x : Int64} (h : asLong z = .ok x) :
    CInt.Ty.long.Holds z ∧ x.toInt = z := by
  by_cases hz : CInt.Ty.long.Holds z
  · obtain ⟨y, hy, hval⟩ := asLong_ok hz
    obtain rfl := Except.ok.inj (hy.symm.trans h)
    exact ⟨hz, hval⟩
  · rw [asLong, if_neg hz] at h
    cases h

theorem double_eq {z : Int} (h : z.natAbs < 2 ^ 53) : double z = z := by
  have hlog : z.natAbs.log2 - 52 = 0 := by
    rcases Nat.eq_zero_or_pos z.natAbs with hzero | hpos
    · rw [hzero]
      rfl
    · have := (Nat.log2_lt (by omega)).mpr h
      omega
  have hsmall : 2 * (z.natAbs % 1) < 1 := by omega
  simp only [double, hlog, Nat.pow_zero, hsmall, if_true, Nat.div_one, Nat.mul_one]
  exact Int.sign_mul_natAbs z

theorem borrow_eq (a b : Timespec) :
    borrow a b = if a.tvNsec.toInt < b.tvNsec.toInt then 1 else 0 := by
  simp only [borrow, Int64.lt_iff_toInt_lt]

section Difference

variable {a b : Timespec} (ha : a.Normal) (hb : b.Normal)

include ha hb

theorem difftimespec_fields (h : a.Fits b) :
    ∃ r, difftimespec a b = .ok r ∧
      r.tvSec.toInt = a.tvSec.toInt - b.tvSec.toInt - borrow a b ∧
      r.tvNsec.toInt = a.tvNsec.toInt - b.tvNsec.toInt + borrow a b * 1000000000 := by
  have ha0 := ha.nonneg
  have ha1 := ha.lt
  have hb0 := hb.nonneg
  have hb1 := hb.lt
  have hborrow : borrow a b = 0 ∨ borrow a b = 1 := by
    rw [borrow_eq]
    split_ifs <;> simp
  obtain ⟨sec, hsec, hsecval⟩ := asLong_ok h.1
  obtain ⟨tvSec, htvSec, htvSecval⟩ := asLong_ok (hsecval ▸ h.2)
  obtain ⟨nsec, hnsec, hnsecval⟩ := asLong_ok (z := a.tvNsec.toInt - b.tvNsec.toInt) (by
    simp only [CInt.Ty.Holds, CInt.Ty.lo, CInt.Ty.hi]
    omega)
  have hnsecdouble : double nsec.toInt = a.tvNsec.toInt - b.tvNsec.toInt := by
    rw [hnsecval, double_eq]
    omega
  have hborrowdouble : double (borrow a b * 1000000000) = borrow a b * 1000000000 := by
    apply double_eq
    omega
  have hsumdouble : double (a.tvNsec.toInt - b.tvNsec.toInt + borrow a b * 1000000000) =
      a.tvNsec.toInt - b.tvNsec.toInt + borrow a b * 1000000000 := by
    apply double_eq
    omega
  obtain ⟨tvNsec, htvNsec, htvNsecval⟩ :=
    asLong_ok (z := a.tvNsec.toInt - b.tvNsec.toInt + borrow a b * 1000000000) (by
      simp only [CInt.Ty.Holds, CInt.Ty.lo, CInt.Ty.hi]
      omega)
  refine ⟨⟨tvSec, tvNsec⟩, ?_, ?_, htvNsecval⟩
  · rw [difftimespec, hsec, ok_bind, htvSec, ok_bind, hnsec, ok_bind, hnsecdouble, hborrowdouble,
      hsumdouble, htvNsec, ok_bind]
    rfl
  · rw [htvSecval, hsecval]

theorem difftimespec_exact (h : a.Fits b) :
    ∃ r, difftimespec a b = .ok r ∧ r.Normal ∧ r.nanos = a.nanos - b.nanos := by
  obtain ⟨r, hr, hsec, hnsec⟩ := difftimespec_fields ha hb h
  have ha0 := ha.nonneg
  have ha1 := ha.lt
  have hb0 := hb.nonneg
  have hb1 := hb.lt
  rw [borrow_eq] at hsec hnsec
  refine ⟨r, hr, ⟨?_, ?_⟩, ?_⟩
  · rw [hnsec]
    split_ifs <;> omega
  · rw [hnsec]
    split_ifs <;> omega
  · simp only [Timespec.nanos, hsec, hnsec]
    omega

end Difference

/-- The two subtractions of seconds are the only steps that can go wrong. -/
theorem fits_of_difftimespec {a b r : Timespec} (h : difftimespec a b = .ok r) : a.Fits b := by
  cases hsec : asLong (a.tvSec.toInt - b.tvSec.toInt) with
  | error f =>
    simp only [difftimespec, bind, Except.bind, hsec] at h
    cases h
  | ok sec =>
    obtain ⟨hfits, hval⟩ := asLong_holds hsec
    cases htvSec : asLong (sec.toInt - borrow a b) with
    | error f =>
      simp only [difftimespec, bind, Except.bind, hsec, htvSec] at h
      cases h
    | ok tvSec => exact ⟨hfits, hval ▸ (asLong_holds htvSec).1⟩

theorem fits_of_nonneg {start current : Timespec} (hs : start.Normal) (hc : current.Normal)
    (h0 : 0 ≤ start.tvSec.toInt) (hle : start.nanos ≤ current.nanos) : current.Fits start := by
  have hs0 := hs.nonneg
  have hc1 := hc.lt
  have htop := current.tvSec.toInt_lt
  rw [Timespec.nanos, Timespec.nanos] at hle
  simp only [Timespec.Fits, borrow_eq, CInt.Ty.Holds, CInt.Ty.lo, CInt.Ty.hi]
  split_ifs <;> omega

theorem intspec_exact (interval : UInt32) :
    ∃ r, intspec interval = .ok r ∧ r.Normal ∧ r.nanos = interval.toNat * 1000000 ∧
      r.tvSec.toInt ≤ 4294967 := by
  have hinterval := interval.toNat_lt
  have hmilli : double ((interval.toNat % 1000 : Nat) : Int) = (interval.toNat % 1000 : Nat) := by
    apply double_eq
    omega
  have hnano : double (((interval.toNat % 1000 : Nat) : Int) * 1000000) =
      (interval.toNat % 1000 : Nat) * 1000000 := by
    apply double_eq
    omega
  obtain ⟨tvSec, htvSec, hsec⟩ := asLong_ok (z := (interval.toNat / 1000 : Nat)) (by
    simp only [CInt.Ty.Holds, CInt.Ty.lo, CInt.Ty.hi]
    omega)
  obtain ⟨tvNsec, htvNsec, hnsec⟩ := asLong_ok (z := (interval.toNat % 1000 : Nat) * 1000000) (by
    simp only [CInt.Ty.Holds, CInt.Ty.lo, CInt.Ty.hi]
    omega)
  refine ⟨⟨tvSec, tvNsec⟩, ?_, ⟨?_, ?_⟩, ?_, ?_⟩
  · rw [intspec, hmilli, hnano, htvSec, htvNsec]
    rfl
  · rw [hnsec]
    omega
  · rw [hnsec]
    omega
  · rw [Timespec.nanos, hsec, hnsec]
    omega
  · rw [hsec]
    omega

/-- The second difference may be negative, but it always fits. -/
theorem snoozeTurn_eq {start current : Timespec} (hs : start.Normal) (hc : current.Normal)
    (hfits : current.Fits start) (hle : start.nanos ≤ current.nanos)
    (nanosleep : Timespec → Option Errno) (interval : UInt32) :
    ∃ snooze, snoozeTurn nanosleep interval start current = .ok (sleepFor nanosleep snooze) ∧
      snooze.Normal ∧
      snooze.nanos = interval.toNat * 1000000 - (current.nanos - start.nanos) := by
  obtain ⟨diff, hdiff, hnormal, hnanos⟩ := difftimespec_exact hc hs hfits
  obtain ⟨spec, hspec, hspecnormal, hspecnanos, hspecle⟩ := intspec_exact interval
  have hdiff0 : 0 ≤ diff.tvSec.toInt := by
    rw [hnormal.tvSec_eq]
    omega
  have hspec0 : 0 ≤ spec.tvSec.toInt := by
    rw [hspecnormal.tvSec_eq]
    omega
  have hdifflt := diff.tvSec.toInt_lt
  have hfits' : spec.Fits diff := by
    simp only [Timespec.Fits, borrow_eq, CInt.Ty.Holds, CInt.Ty.lo, CInt.Ty.hi]
    split_ifs <;> omega
  obtain ⟨snooze, hsnooze, hsnoozenormal, hsnoozenanos⟩ :=
    difftimespec_exact hspecnormal hnormal hfits'
  refine ⟨snooze, ?_, hsnoozenormal, ?_⟩
  · rw [snoozeTurn, hdiff, ok_bind, hspec, ok_bind, hsnooze, ok_bind]
    rfl
  · rw [hsnoozenanos, hspecnanos, hnanos]

theorem sleepFor_neg {nanosleep : Timespec → Option Errno} {snooze : Timespec}
    (h : snooze.tvSec.toInt < 0) : sleepFor nanosleep snooze = .skipped := by
  apply if_neg
  rw [Int64.le_iff_toInt_le, Int64.toInt_zero]
  omega

theorem sleepFor_nonneg {nanosleep : Timespec → Option Errno} {snooze : Timespec}
    (h : 0 ≤ snooze.tvSec.toInt) (hvalid : nanosleep snooze ≠ some .einval) :
    sleepFor nanosleep snooze = .slept snooze := by
  have hsec : 0 ≤ snooze.tvSec := by
    rw [Int64.le_iff_toInt_le, Int64.toInt_zero]
    exact h
  rw [sleepFor, if_pos hsec]
  cases hret : nanosleep snooze with
  | none => rfl
  | some errno =>
    cases errno with
    | eintr => rfl
    | einval => exact absurd hret hvalid

/-- The difference is exact whenever its seconds fit, as they do for the readings of a clock
that counts up from zero. Then the turn sleeps for what is left of the interval, and never
with an argument that `nanosleep` refuses. -/
theorem snooze_exact (start current : Timespec) (hs : start.Normal) (hc : current.Normal)
    (nanosleep : Timespec → Option Errno)
    (hinval : ∀ t : Timespec, nanosleep t = some .einval → t.tvSec.toInt < 0 ∨ ¬ t.Normal)
    (interval : UInt32) :
    ((∃ r, difftimespec current start = .ok r ∧ r.Normal ∧
        r.nanos = current.nanos - start.nanos ∧
        (r.tvSec.toInt < 0 ↔ current.nanos < start.nanos)) ↔ current.Fits start) ∧
      (0 ≤ start.tvSec.toInt → start.nanos ≤ current.nanos → current.Fits start) ∧
      (current.Fits start → start.nanos ≤ current.nanos →
        if current.nanos - start.nanos ≤ interval.toNat * 1000000 then
          ∃ snooze, snoozeTurn nanosleep interval start current = .ok (.slept snooze) ∧
            0 ≤ snooze.tvSec.toInt ∧ snooze.Normal ∧
            snooze.nanos = interval.toNat * 1000000 - (current.nanos - start.nanos) ∧
            nanosleep snooze ≠ some .einval
        else snoozeTurn nanosleep interval start current = .ok .skipped) := by
  refine ⟨⟨?_, ?_⟩, fits_of_nonneg hs hc, ?_⟩
  · rintro ⟨r, hr, -⟩
    exact fits_of_difftimespec hr
  · intro hfits
    obtain ⟨r, hr, hnormal, hnanos⟩ := difftimespec_exact hc hs hfits
    refine ⟨r, hr, hnormal, hnanos, ?_⟩
    rw [hnormal.tvSec_neg_iff, hnanos]
    omega
  · intro hfits hle
    obtain ⟨snooze, hturn, hnormal, hnanos⟩ := snoozeTurn_eq hs hc hfits hle nanosleep interval
    split_ifs with helapsed
    · have hsec : 0 ≤ snooze.tvSec.toInt := by
        rw [hnormal.tvSec_eq]
        omega
      have hvalid : nanosleep snooze ≠ some .einval := by
        intro hret
        rcases hinval snooze hret with hneg | hbad
        · omega
        · exact hbad hnormal
      exact ⟨snooze, hturn.trans (congrArg _ (sleepFor_nonneg hsec hvalid)), hsec, hnormal,
        hnanos, hvalid⟩
    · have hneg : snooze.tvSec.toInt < 0 := by
        rw [hnormal.tvSec_neg_iff]
        omega
      exact hturn.trans (congrArg _ (sleepFor_neg hneg))

theorem snooze_exact_borrow :
    ∃ snooze, snoozeTurn
      (fun t => if t.tvSec < 0 ∨ t.tvNsec < 0 ∨ 1000000000 ≤ t.tvNsec then some .einval else none)
      1000 ⟨5, 900000000⟩ ⟨6, 100000000⟩ = .ok (.slept snooze) ∧ snooze.nanos = 800000000 := by
  have hnormal : ∀ t : Timespec, 0 ≤ t.tvNsec → t.tvNsec < 1000000000 → t.Normal :=
    fun t h0 h1 => ⟨Int64.le_iff_toInt_le.mp h0, Int64.lt_iff_toInt_lt.mp h1⟩
  have hexact := snooze_exact ⟨5, 900000000⟩ ⟨6, 100000000⟩ (hnormal _ (by decide) (by decide))
    (hnormal _ (by decide) (by decide))
    (fun t => if t.tvSec < 0 ∨ t.tvNsec < 0 ∨ 1000000000 ≤ t.tvNsec then some .einval else none)
    (by
      intro t ht
      by_cases hbad : t.tvSec < 0 ∨ t.tvNsec < 0 ∨ 1000000000 ≤ t.tvNsec
      · rcases hbad with h | h | h
        · exact .inl (Int64.lt_iff_toInt_lt.mp h)
        · exact .inr (fun hn => absurd hn.nonneg (Int.not_le.mpr (Int64.lt_iff_toInt_lt.mp h)))
        · exact .inr (fun hn => absurd hn.lt (Int.not_lt.mpr (Int64.le_iff_toInt_le.mp h)))
      · rw [if_neg hbad] at ht
        cases ht)
    1000
  obtain ⟨snooze, hturn, -, -, hnanos, -⟩ :=
    hexact.2.2 (hexact.2.1 (by decide) (by decide)) (by decide)
  exact ⟨snooze, hturn, hnanos.trans (by decide)⟩

/-- The largest reading against one second before zero: the difference of the seconds is one
too large. -/
theorem difftimespec_overflow :
    (Timespec.mk 9223372036854775807 0).Normal ∧ (Timespec.mk (-1) 0).Normal ∧
      ¬ ∃ r, difftimespec ⟨9223372036854775807, 0⟩ ⟨-1, 0⟩ = .ok r ∧ r.Normal ∧
        r.nanos = (Timespec.mk 9223372036854775807 0).nanos - (Timespec.mk (-1) 0).nanos := by
  refine ⟨⟨by decide, by decide⟩, ⟨by decide, by decide⟩, ?_⟩
  rintro ⟨r, hr, -⟩
  exact absurd (fits_of_difftimespec hr).1 (by decide)

end Slstatus
