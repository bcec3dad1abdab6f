import Mathlib.Data.Rat.Floor
import Slstatus.Lib.Rounding
import Slstatus.Timespec

/-! A `double` of the program: a rational number rounded to 53 bits. No value that the
program computes is subnormal or overflows, so the exponent needs no bounds. -/

namespace Slstatus

open Rounding

def toDouble (q : ℚ) : ℚ := roundBits 53 q

theorem toDouble_near (q : ℚ) : |toDouble q - q| ≤ |q| / 2 ^ 53 := roundBits_near 53 q

theorem toDouble_mono {q r : ℚ} (h : q ≤ r) : toDouble q ≤ toDouble r :=
  roundBits_mono (by decide) h

theorem toDouble_eq {q : ℚ} (h : Representable 53 q) : toDouble q = q := roundBits_eq h

theorem toDouble_nonneg {q : ℚ} (h : 0 ≤ q) : 0 ≤ toDouble q := roundBits_nonneg 53 h

theorem toDouble_natCast {n : Nat} (h : n < 2 ^ 53) : toDouble n = n :=
  toDouble_eq (Representable.of_natCast h)

/-- A number between 0 and 1 stays there. -/
theorem toDouble_unit {q : ℚ} (h0 : 0 ≤ q) (h1 : q ≤ 1) :
    toDouble q ≤ 1 ∧ |toDouble q - q| ≤ 1 / 2 ^ 53 := by
  have hone : Representable 53 (1 : ℚ) := by
    simpa using Representable.of_natCast (K := ℚ) (n := 1) (p := 53) (by decide)
  refine ⟨roundBits_le (by decide) hone h1, (toDouble_near q).trans ?_⟩
  rw [abs_of_nonneg h0]
  exact div_le_div_of_nonneg_right h1 (by positivity)

theorem nearestEven_div (n : Nat) {unit : Nat} (hunit : 0 < unit) :
    nearestEven ((n : ℚ) / unit) =
      ((if 2 * (n % unit) < unit then n / unit
        else if unit < 2 * (n % unit) then n / unit + 1 else n / unit + n / unit % 2 : Nat) : Int) := by
  have hpos : (0 : ℚ) < unit := by exact_mod_cast hunit
  have hfloor : ⌊(n : ℚ) / unit⌋ = ((n / unit : Nat) : Int) := Rat.floor_natCast_div_natCast n unit
  have hrest : (n : ℚ) / unit - ((n / unit : Nat) : Int) = (n % unit : Nat) / unit := by
    have hdiv : (n : ℚ) = (n / unit : Nat) * unit + (n % unit : Nat) := by
      exact_mod_cast (Nat.div_add_mod' n unit).symm
    rw [eq_div_iff hpos.ne', sub_mul, div_mul_cancel₀ _ hpos.ne', Int.cast_natCast]
    linarith
  have hlt : ((n % unit : Nat) : ℚ) / unit < 1 / 2 ↔ 2 * (n % unit) < unit := by
    rw [div_lt_div_iff₀ hpos two_pos, one_mul, mul_comm]
    exact_mod_cast Iff.rfl
  have hgt : 1 / 2 < ((n % unit : Nat) : ℚ) / unit ↔ unit < 2 * (n % unit) := by
    rw [div_lt_div_iff₀ two_pos hpos, one_mul, mul_comm]
    exact_mod_cast Iff.rfl
  simp only [nearestEven, hfloor, hrest, hlt, hgt]
  split_ifs <;> push_cast <;> rfl

theorem double_natCast (n : Nat) : ((double n : Int) : ℚ) = toDouble n := by
  rcases lt_or_ge n (2 ^ 53) with hlt | hge
  · rw [double_eq (by simpa using hlt), toDouble, roundBits_eq (Representable.of_natCast hlt)]
    rfl
  · have hne : n ≠ 0 := by omega
    have hlog : 53 ≤ n.log2 := (Nat.le_log2 hne).mpr hge
    have hexp : exponent 53 (n : ℚ) = ((n.log2 - 52 : Nat) : Int) := by
      rw [exponent, Nat.abs_cast, Int.log_natCast, ← Nat.log2_eq_log_two]
      omega
    have hunit : (2 : ℚ) ^ exponent 53 (n : ℚ) = ((2 ^ (n.log2 - 52) : Nat) : ℚ) := by
      rw [hexp, zpow_natCast]
      push_cast
      rfl
    rw [toDouble, roundBits, hunit, nearestEven_div n (by positivity)]
    simp only [double, Int.natAbs_natCast, Int.sign_natCast_of_ne_zero hne, one_mul]
    push_cast
    rfl

/-- The doubles of the sleep are those of this file. -/
theorem double_toDouble (z : Int) : ((double z : Int) : ℚ) = toDouble z := by
  rcases Int.eq_nat_or_neg z with ⟨n, rfl | rfl⟩
  · exact double_natCast n
  · have hneg : double (-(n : Int)) = -double n := by
      simp only [double, Int.natAbs_neg, Int.sign_neg, neg_mul]
    rw [hneg]
    push_cast
    rw [double_natCast, toDouble, toDouble, roundBits_neg]

end Slstatus
