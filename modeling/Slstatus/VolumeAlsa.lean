import Slstatus.DoubleFigures

/-! `vol_perc` over ALSA: the percentage is computed in doubles and printed without decimals. -/

namespace Slstatus

open Rounding

/-- A mixer element, and what it answers. -/
structure AlsaElem where
  range : Option (Int64 × Int64)
  volume : Option Int64

/-- An open mixer. -/
structure AlsaMixer where
  attached : Bool := true
  registered : Bool := true
  loaded : Bool := true
  elem : Option AlsaElem := none

/-- `min`, `max` and `volume` at the label `cleanup`. -/
def AlsaMixer.asked (x : AlsaMixer) : Int64 × Int64 × Int64 :=
  if x.attached && x.registered && x.loaded then
    match x.elem with
    | none => (0, 0, -1)
    | some elem =>
      match elem.range with
      | none => (0, 0, -1)
      | some (min, max) => (min, max, elem.volume.getD (-1))
  else (0, 0, -1)

/-- `%.0f` of a number with this sign. -/
def fixed0 (negative : Bool) (q : ℚ) : Bytes :=
  (if negative then [45] else []) ++ decimal (nearestEven q).natAbs

/-- `(volume-min)*100./(max-min)` as it is printed. A zero has the sign of the divisor. -/
def alsaText (min max volume : Int64) : Except Fault Bytes :=
  let above := volume.toInt - min.toInt
  let span := max.toInt - min.toInt
  if ¬ (CInt.Ty.long.Holds above ∧ CInt.Ty.long.Holds span) then .error .overflow
  else if span = 0 then
    .ok (if above = 0 then lit "nan" else if above < 0 then lit "-inf" else lit "inf")
  else
    .ok (fixed0 ((above < 0) ^^ (span < 0))
      (toDouble (toDouble (toDouble above * 100) / toDouble span)))

/-- `vol_perc` with ALSA; there is no mixer where it cannot be opened. -/
def alsaVolPerc (mixer : Option AlsaMixer) : Except Fault (Option Bytes) :=
  match mixer with
  | none => .ok none
  | some x =>
    let (min, max, volume) := x.asked
    if volume = -1 then .ok none else (alsaText min max volume).map bprintf

section Percent

variable {above span : Nat} {min max volume : Int64}

/-- The difference, its product with 100 and the range are held as they are. -/
theorem percent_nearest (hle : above ≤ span) (hpos : 0 < span) (hsmall : span < 2 ^ 45) :
    nearestEven (toDouble (toDouble (toDouble above * 100) / toDouble span)) =
      nearestEven (100 * above / span : ℚ) := by
  have hproduct : toDouble (toDouble above * 100) = ((100 * above : Nat) : ℚ) := by
    rw [toDouble_natCast (by omega), ← toDouble_natCast (n := 100 * above) (by omega)]
    push_cast
    rw [mul_comm]
  have hround := nearestEven_roundBits_div (K := ℚ) (p := 53) (a := (100 * above : Nat))
    (b := (span : Nat)) (by exact_mod_cast hpos) (by rw [Nat.abs_cast]; exact_mod_cast by omega)
  rw [hproduct, toDouble_natCast (by omega), toDouble]
  simpa using hround

theorem alsaText_nearest (hlt : min < max) (hlo : min ≤ volume) (hhi : volume ≤ max)
    (hsmall : max.toInt - min.toInt < 2 ^ 45) :
    ∃ n : Nat, alsaText min max volume = .ok (decimal n) ∧ n ≤ 100 ∧
      IsNearestEven ((100 * (volume.toInt - min.toInt)) / (max.toInt - min.toInt) : ℚ) n := by
  have hmin := Int64.le_iff_toInt_le.mp hlo
  have hmax := Int64.le_iff_toInt_le.mp hhi
  have hrange := Int64.lt_iff_toInt_lt.mp hlt
  obtain ⟨above, habove⟩ := Int.eq_ofNat_of_zero_le (sub_nonneg.mpr hmin)
  obtain ⟨span, hspan⟩ := Int.eq_ofNat_of_zero_le (sub_nonneg.mpr hrange.le)
  have hle : above ≤ span := by omega
  have hpos : 0 < span := by omega
  have hfits : span < 2 ^ 45 := by omega
  have hquot : ((100 * (volume.toInt - min.toInt)) / (max.toInt - min.toInt) : ℚ) =
      100 * above / span := by
    have habove' : (volume.toInt : ℚ) - min.toInt = above := by exact_mod_cast habove
    have hspan' : (max.toInt : ℚ) - min.toInt = span := by exact_mod_cast hspan
    rw [habove', hspan']
  have h0 : (0 : ℚ) ≤ 100 * above / span := by positivity
  have h100 : (100 * above / span : ℚ) ≤ (100 : Int) := by
    have hcast : (above : ℚ) ≤ span := by exact_mod_cast hle
    rw [div_le_iff₀ (by exact_mod_cast hpos)]
    push_cast
    linarith
  have hn0 : 0 ≤ nearestEven (100 * above / span : ℚ) := le_nearestEven (by simpa using h0)
  have hn100 := nearestEven_le h100
  have hspec := nearestEven_spec (100 * above / span : ℚ)
  obtain ⟨n, hn⟩ := Int.eq_ofNat_of_zero_le hn0
  rw [hn] at hn100 hspec
  refine ⟨n, ?_, by omega, hquot ▸ hspec⟩
  have hholds : CInt.Ty.long.Holds above ∧ CInt.Ty.long.Holds span := by
    simp only [CInt.Ty.Holds, CInt.Ty.lo, CInt.Ty.hi]
    omega
  have hsign : ¬ (above : Int) < 0 ∧ ¬ (span : Int) < 0 := by omega
  simp only [alsaText, habove, hspan, not_not.mpr hholds, if_false, fixed0, Int.cast_natCast,
    percent_nearest hle hpos hfits, hn, hsign.1, hsign.2]
  rw [if_neg (by omega)]
  rfl

end Percent

/-- On every mixer whose range is less than 2 ^ 45, and whatever its volume: the number is the whole
one next to the exact percentage, the even one of two that are as near. Only a volume of -1, which
a mixer may have, is shown as none. -/
theorem alsaVolPerc_nearest {x : AlsaMixer} {min max volume : Int64}
    (hasked : x.asked = (min, max, volume)) (hlt : min < max) (hlo : min ≤ volume)
    (hhi : volume ≤ max) (hsmall : max.toInt - min.toInt < 2 ^ 45) :
    if volume = -1 then alsaVolPerc (some x) = .ok none
    else ∃ n : Nat, alsaVolPerc (some x) = .ok (some (decimal n)) ∧ n ≤ 100 ∧
      IsNearestEven ((100 * (volume.toInt - min.toInt)) / (max.toInt - min.toInt) : ℚ) n := by
  split_ifs with h
  · simp only [alsaVolPerc, hasked, if_pos h]
  · obtain ⟨n, htext, hn, hnear⟩ := alsaText_nearest hlt hlo hhi hsmall
    have hlen : (decimal n).length ≤ 3 := decimal_length_le (by omega) (by omega)
    refine ⟨n, ?_, hn, hnear⟩
    simp only [alsaVolPerc, hasked, if_neg h, htext, Except.map]
    rw [bprintf, if_neg (by omega)]

/-- Twelve and a half percent. -/
theorem alsaVolPerc_nearest_middle :
    alsaVolPerc (some { elem := some ⟨some (0, 200), some 25⟩ }) = .ok (some (decimal 12)) := by
  have h := @alsaVolPerc_nearest { elem := some ⟨some (0, 200), some 25⟩ } 0 200 25 rfl (by decide)
    (by decide) (by decide) (by decide)
  rw [if_neg (by decide)] at h
  obtain ⟨n, hprint, -, hnear⟩ := h
  have hexact : IsNearestEven ((100 * ((25 : Int64).toInt - (0 : Int64).toInt)) /
      ((200 : Int64).toInt - (0 : Int64).toInt) : ℚ) 12 := by
    rw [show (25 : Int64).toInt = 25 from rfl, show (0 : Int64).toInt = 0 from rfl,
      show (200 : Int64).toInt = 200 from rfl]
    exact .inr ⟨by norm_num, rfl⟩
  obtain rfl : n = 12 := by exact_mod_cast hnear.unique hexact
  exact hprint

end Slstatus
