import Slstatus.Counters
import Slstatus.HumanScale
import Slstatus.Lib.Rounding

/-! `io_perc` with its quotient computed in floats, which have 24 bits. -/

namespace Slstatus

open Rounding

def toFloat (q : ℚ) : ℚ := roundBits 24 q

/-- `num / (float)interval` -/
def waitShare (num : UInt64) (interval : UInt32) : ℚ :=
  toFloat (toFloat num.toNat / toFloat interval.toNat)

/-- `Reading.quotient` with every operation rounded to a float. -/
def Reading.floatQuotient (num : UInt64) (interval : UInt32) : Reading :=
  if interval = 0 then ⟨none, bprintf (if num = 0 then lit "nan" else lit "inf")⟩
  else ⟨some (waitShare num interval), bprintf (fixed1 (waitShare num interval))⟩

def ioPercFloat (interval : UInt32) (wait : Option UInt64) (old : UInt64) : Reading × UInt64 :=
  match wait with
  | none => (.null, old)
  | some new =>
    if old = 0 ∨ new < old then (.null, new)
    else (.floatQuotient (100 * (new - old)) interval, new)

section Share

variable {num num' old new : UInt64} {interval : UInt32}

theorem representable_pow (k : Nat) : Representable 24 ((2 ^ k : Nat) : ℚ) :=
  ⟨1, k, by norm_num, by push_cast; rw [zpow_natCast, one_mul]⟩

theorem toFloat_one_le {n : Nat} (h : 1 ≤ n) : 1 ≤ toFloat n := by
  have hone : Representable 24 (1 : ℚ) := by simpa using representable_pow 0
  exact le_roundBits (by decide) hone (by exact_mod_cast h)

theorem interval_pos (h : 1 ≤ interval) : 1 ≤ interval.toNat := UInt32.le_iff_toNat_le.mp h

theorem waitShare_near (num : UInt64) (h : 1 ≤ interval) :
    |waitShare num interval - num.toNat / interval.toNat| ≤
      num.toNat / interval.toNat * (4 / 2 ^ 24) := by
  have hpos : (0 : ℚ) < interval.toNat := by exact_mod_cast interval_pos h
  exact roundBits_quotient_near (by decide) (Nat.cast_nonneg _) hpos

theorem waitShare_nonneg (num : UInt64) (interval : UInt32) : 0 ≤ waitShare num interval :=
  roundBits_nonneg 24 (div_nonneg (roundBits_nonneg 24 (Nat.cast_nonneg _))
    (roundBits_nonneg 24 (Nat.cast_nonneg _)))

theorem waitShare_mono (h : num ≤ num') : waitShare num interval ≤ waitShare num' interval := by
  have hnum : (num.toNat : ℚ) ≤ num'.toNat := by exact_mod_cast UInt64.le_iff_toNat_le.mp h
  have hfloat : toFloat num.toNat ≤ toFloat num'.toNat := roundBits_mono (by decide) hnum
  exact roundBits_mono (by decide)
    (div_le_div_of_nonneg_right hfloat (roundBits_nonneg 24 (Nat.cast_nonneg _)))

theorem waitShare_le (num : UInt64) (h : 1 ≤ interval) :
    waitShare num interval ≤ (2 ^ 64 : Nat) := by
  have hnum : toFloat num.toNat ≤ ((2 ^ 64 : Nat) : ℚ) :=
    roundBits_le (by decide) (representable_pow 64) (by exact_mod_cast num.toNat_lt.le)
  refine roundBits_le (by decide) (representable_pow 64) ?_
  exact (div_le_self (roundBits_nonneg 24 (Nat.cast_nonneg _))
    (toFloat_one_le (interval_pos h))).trans hnum

/-- A share of whole tenths comes out as it is. -/
theorem tenths_waitShare (h : 1 ≤ interval) {k : Nat} (hk : k < 2 ^ 20)
    (hshare : 10 * num.toNat = k * interval.toNat) : tenths (waitShare num interval) = k := by
  have hpos : (0 : ℚ) < interval.toNat := by exact_mod_cast interval_pos h
  have hquot : (num.toNat : ℚ) / interval.toNat = k / 10 := by
    rw [div_eq_div_iff hpos.ne' (by norm_num), mul_comm]
    exact_mod_cast hshare
  have hnear := waitShare_near num h
  rw [hquot] at hnear
  obtain ⟨hlo, hhi⟩ := abs_le.mp hnear
  obtain ⟨hlo', hhi'⟩ := abs_le.mp (tenths_near (waitShare_nonneg num interval))
  have hk' : (k : ℚ) < 2 ^ 20 := by exact_mod_cast hk
  have hup : (tenths (waitShare num interval) : ℚ) < k + 1 := by linarith
  have hdown : (k : ℚ) < tenths (waitShare num interval) + 1 := by linarith
  have hup' : tenths (waitShare num interval) < k + 1 := by exact_mod_cast hup
  have hdown' : k < tenths (waitShare num interval) + 1 := by exact_mod_cast hdown
  omega

theorem ioPercFloat_text (hinterval : 1 ≤ interval) (hold : old ≠ 0) (hle : old ≤ new) :
    (ioPercFloat interval (some new) old).1.text =
      some (fixed1 (waitShare (100 * (new - old)) interval)) := by
  have hshown : ¬ (old = 0 ∨ new < old) := not_or.mpr ⟨hold, UInt64.not_lt.mpr hle⟩
  have hzero : interval ≠ 0 := by
    rintro rfl
    exact absurd hinterval (by decide)
  have hlen := fixed1_length_le (waitShare_le (100 * (new - old)) hinterval)
  simp only [ioPercFloat, if_neg hshown, Reading.floatQuotient, if_neg hzero]
  rw [bprintf, if_neg (by omega)]

theorem waited_toNat (hle : old ≤ new) (hfits : 100 * (new.toNat - old.toNat) < 2 ^ 64) :
    (100 * (new - old)).toNat = 100 * (new.toNat - old.toNat) := by
  rw [UInt64.toNat_mul, UInt64.toNat_sub_of_le _ _ hle]
  exact Nat.mod_eq_of_lt hfits

end Share

/-- The percentage that is printed is off by half a tenth and the `2 ^ 22`th part at most. It is
exact where the exact one has no more than one decimal, and more waiting is never shown as
less. -/
theorem ioPercFloat_near {interval : UInt32} {old new : UInt64} (hinterval : 1 ≤ interval)
    (hold : old ≠ 0) (hle : old ≤ new) (hfits : 100 * (new.toNat - old.toNat) < 2 ^ 64) :
    ∃ t, (ioPercFloat interval (some new) old).1.text =
        some (decimal (t / 10) ++ 46 :: decimal (t % 10)) ∧
      |(t : ℚ) / 10 - (100 * (new.toNat - old.toNat) : Nat) / interval.toNat| ≤
        1 / 20 + (100 * (new.toNat - old.toNat) : Nat) / interval.toNat / 2 ^ 22 ∧
      (∀ k, k < 2 ^ 20 → 1000 * (new.toNat - old.toNat) = k * interval.toNat → t = k) ∧
      ∀ new', new ≤ new' → 100 * (new'.toNat - old.toNat) < 2 ^ 64 →
        ∃ t', (ioPercFloat interval (some new') old).1.text =
          some (decimal (t' / 10) ++ 46 :: decimal (t' % 10)) ∧ t ≤ t' := by
  have hnum := waited_toNat hle hfits
  refine ⟨_, ioPercFloat_text hinterval hold hle, ?_, ?_, ?_⟩
  · have hnear := waitShare_near (100 * (new - old)) hinterval
    rw [hnum] at hnear
    obtain ⟨hlo, hhi⟩ := abs_le.mp hnear
    obtain ⟨hlo', hhi'⟩ := abs_le.mp (tenths_near (waitShare_nonneg (100 * (new - old)) interval))
    refine abs_le.mpr ⟨?_, ?_⟩ <;> linarith
  · intro k hk hshare
    refine tenths_waitShare hinterval hk ?_
    rw [hnum]
    omega
  · intro new' hnew hfits'
    refine ⟨_, ioPercFloat_text hinterval hold (UInt64.le_trans hle hnew), ?_⟩
    refine tenths_mono (waitShare_nonneg _ _) (waitShare_mono ?_)
    rw [UInt64.le_iff_toNat_le, hnum, waited_toNat (UInt64.le_trans hle hnew) hfits']
    have := UInt64.le_iff_toNat_le.mp hnew
    omega

theorem ioPercFloat_near_whole :
    (ioPercFloat 1000 (some 1005) 5).1.text = some (decimal 100 ++ 46 :: decimal 0) := by
  obtain ⟨t, htext, -, hwhole, -⟩ :=
    @ioPercFloat_near 1000 5 1005 (by decide) (by decide) (by decide) (by decide)
  rw [htext, hwhole 1000 (by decide) (by decide)]

end Slstatus
