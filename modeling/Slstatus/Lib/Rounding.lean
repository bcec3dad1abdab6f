import Mathlib.Algebra.Order.Floor.Ring
import Mathlib.Data.Int.Log
import Mathlib.Tactic.FieldSimp
import Mathlib.Tactic.Linarith
import Mathlib.Tactic.Positivity
import Mathlib.Tactic.Ring

/-! Rounding to a number of significant bits, to the nearest and ties to even. The exponent
has no bounds, so there are no subnormal numbers and nothing overflows. -/

namespace Rounding

section Representable

variable {K : Type} [Field K] {p : Nat} {q : K}

/-- A number that `p` bits hold. -/
def Representable (p : Nat) (q : K) : Prop := ∃ m e : Int, |m| < 2 ^ p ∧ q = m * 2 ^ e

theorem Representable.of_natCast {n : Nat} (h : n < 2 ^ p) : Representable p (n : K) :=
  ⟨n, 0, by rw [Nat.abs_cast]; exact_mod_cast h, by simp⟩

theorem Representable.neg (h : Representable p q) : Representable p (-q) := by
  obtain ⟨m, e, hm, rfl⟩ := h
  exact ⟨-m, e, by rwa [abs_neg], by push_cast; ring⟩

theorem Representable.mul_zpow [CharZero K] (h : Representable p q) (k : Int) :
    Representable p (q * 2 ^ k) := by
  obtain ⟨m, e, hm, rfl⟩ := h
  exact ⟨m, e + k, hm, by rw [mul_assoc, ← zpow_add₀ (OfNat.ofNat_ne_zero 2)]⟩

end Representable

variable {K : Type} [Field K] [LinearOrder K]

/-- The nearest whole number, and the even one of two that are as near. -/
def nearestEven [FloorRing K] (q : K) : Int :=
  let n := ⌊q⌋
  let rest := q - n
  if rest < 1 / 2 then n else if 1 / 2 < rest then n + 1 else n + n % 2

/-- What `nearestEven` computes, as a property of the number. -/
def IsNearestEven (q : K) (n : Int) : Prop := |q - n| < 1 / 2 ∨ (|q - n| = 1 / 2 ∧ n % 2 = 0)

section Nearest

variable {q r : K} {m n : Int}

theorem IsNearestEven.near (h : IsNearestEven q n) : |q - n| ≤ 1 / 2 :=
  h.elim le_of_lt (fun h => h.1.le)

variable [IsStrictOrderedRing K]

/-- One of two neighbours that are as near is odd. -/
theorem IsNearestEven.le (hm : IsNearestEven q m) (hn : IsNearestEven r n) (hqr : q ≤ r) :
    m ≤ n := by
  by_contra hlt
  have hstep : ((n + 1 : Int) : K) ≤ m := Int.cast_le.mpr (by omega)
  push_cast at hstep
  obtain ⟨hmlo, -⟩ := abs_le.mp hm.near
  obtain ⟨-, hnhi⟩ := abs_le.mp hn.near
  have hq : q - m = -(1 / 2) := by linarith
  have hr : r - n = 1 / 2 := by linarith
  have hmn : m = n + 1 := by
    have : (m : K) = ((n + 1 : Int) : K) := by push_cast; linarith
    exact_mod_cast this
  have hmeven : m % 2 = 0 := by
    rcases hm with hlt | ⟨-, heven⟩
    · rw [hq, abs_neg, abs_of_pos one_half_pos] at hlt
      exact absurd hlt (lt_irrefl _)
    · exact heven
  have hneven : n % 2 = 0 := by
    rcases hn with hlt | ⟨-, heven⟩
    · rw [hr, abs_of_pos one_half_pos] at hlt
      exact absurd hlt (lt_irrefl _)
    · exact heven
  omega

theorem IsNearestEven.unique (hm : IsNearestEven q m) (hn : IsNearestEven q n) : m = n :=
  le_antisymm (hm.le hn le_rfl) (hn.le hm le_rfl)

omit [IsStrictOrderedRing K] in
theorem IsNearestEven.neg (h : IsNearestEven q n) : IsNearestEven (-q) (-n) := by
  have habs : |-q - ((-n : Int) : K)| = |q - n| := by
    rw [← abs_neg]
    push_cast
    ring_nf
  rw [IsNearestEven, habs, Int.neg_emod_two]
  exact h

variable [FloorRing K]

theorem nearestEven_spec (q : K) : IsNearestEven q (nearestEven q) := by
  have hlo := Int.floor_le q
  have hhi := Int.lt_floor_add_one q
  simp only [nearestEven]
  split_ifs with hdown hup
  · refine .inl (abs_lt.mpr ⟨?_, hdown⟩)
    linarith
  · refine .inl (abs_lt.mpr ⟨?_, ?_⟩) <;> push_cast <;> linarith
  · have hrest : q - ⌊q⌋ = 1 / 2 := le_antisymm (not_lt.mp hup) (not_lt.mp hdown)
    refine .inr ?_
    rcases Int.emod_two_eq_zero_or_one ⌊q⌋ with hmod | hmod
    · rw [hmod, add_zero, hrest, abs_of_pos one_half_pos]
      exact ⟨rfl, hmod⟩
    · refine ⟨?_, by omega⟩
      rw [hmod, abs_of_neg] <;> push_cast <;> linarith

theorem nearestEven_eq (h : IsNearestEven q n) : nearestEven q = n :=
  (nearestEven_spec q).unique h

theorem nearestEven_mono (h : q ≤ r) : nearestEven q ≤ nearestEven r :=
  (nearestEven_spec q).le (nearestEven_spec r) h

@[simp] theorem nearestEven_intCast (n : Int) : nearestEven (n : K) = n := by
  refine nearestEven_eq (.inl ?_)
  rw [sub_self, abs_zero]
  exact one_half_pos

theorem le_nearestEven (h : (n : K) ≤ q) : n ≤ nearestEven q := by
  simpa using nearestEven_mono h

theorem nearestEven_le (h : q ≤ n) : nearestEven q ≤ n := by
  simpa using nearestEven_mono h

theorem nearestEven_neg (q : K) : nearestEven (-q) = -nearestEven q :=
  nearestEven_eq (nearestEven_spec q).neg

end Nearest

variable [IsStrictOrderedRing K] [FloorRing K]

/-- The exponent of the last of `p` bits. -/
def exponent (p : Nat) (q : K) : Int := Int.log 2 |q| + 1 - p

def roundBits (p : Nat) (q : K) : K := nearestEven (q / 2 ^ exponent p q) * 2 ^ exponent p q

section Round

variable {p : Nat} {q r : K}

@[simp] theorem roundBits_zero : roundBits p (0 : K) = 0 := by
  have h : nearestEven (0 : K) = 0 := by simpa using nearestEven_intCast (K := K) 0
  simp [roundBits, h]

theorem roundBits_neg (p : Nat) (q : K) : roundBits p (-q) = -roundBits p q := by
  simp [roundBits, exponent, abs_neg, neg_div, nearestEven_neg]

theorem two_zpow_pos (e : Int) : (0 : K) < 2 ^ e := zpow_pos two_pos e

theorem roundBits_near_unit (p : Nat) (q : K) : |roundBits p q - q| ≤ 2 ^ exponent p q / 2 := by
  have hunit := two_zpow_pos (K := K) (exponent p q)
  have hnear := (nearestEven_spec (q / 2 ^ exponent p q)).near
  have heq : roundBits p q - q =
      -(q / 2 ^ exponent p q - nearestEven (q / 2 ^ exponent p q)) * 2 ^ exponent p q := by
    rw [roundBits]
    field_simp
    ring
  rw [heq, abs_mul, abs_neg, abs_of_pos hunit]
  nlinarith

/-- The error is at most half a unit in the last place, which is the `2 ^ p`th part. -/
theorem roundBits_near (p : Nat) (q : K) : |roundBits p q - q| ≤ |q| / 2 ^ p := by
  rcases eq_or_ne q 0 with rfl | hq
  · simp
  · have hlog := Int.zpow_log_le_self (b := 2) one_lt_two (abs_pos.mpr hq)
    have hunit : (2 : K) ^ exponent p q / 2 = 2 ^ Int.log 2 |q| / 2 ^ p := by
      rw [exponent, zpow_sub₀ two_ne_zero, zpow_add₀ two_ne_zero, zpow_one, zpow_natCast]
      field_simp
    refine (roundBits_near_unit p q).trans ?_
    rw [hunit]
    exact div_le_div_of_nonneg_right (by exact_mod_cast hlog) (by positivity)

theorem zpow_exponent (p : Nat) (hq : 0 < q) :
    ((2 ^ p : Int) : K) * 2 ^ exponent p q = 2 ^ (Int.log 2 q + 1) := by
  push_cast
  rw [← zpow_natCast, ← zpow_add₀ two_ne_zero, exponent, abs_of_pos hq]
  congr 1
  ring

/-- In units of the last place a number has `p` bits. -/
theorem in_units (p : Nat) (hq : 0 < q) :
    ((2 ^ p : Int) : K) ≤ q / 2 ^ exponent p q * 2 ∧
      q / 2 ^ exponent p q < ((2 ^ p : Int) : K) := by
  have hlo := Int.zpow_log_le_self (b := 2) one_lt_two hq
  have hhi := Int.lt_zpow_succ_log_self (b := 2) one_lt_two q
  have hhalf : (2 : K) ^ (Int.log 2 q + 1) = 2 ^ Int.log 2 q * 2 := zpow_add_one₀ two_ne_zero _
  have hpos := two_zpow_pos (K := K) (exponent p q)
  push_cast only [Nat.cast_ofNat] at hlo hhi
  constructor
  · rw [div_mul_eq_mul_div, le_div_iff₀ hpos, zpow_exponent p hq, hhalf]
    linarith
  · rw [div_lt_iff₀ hpos, zpow_exponent p hq]
    exact hhi

/-- Rounding does not leave the powers of two that a number lies between. -/
theorem roundBits_between (hp : 0 < p) (hq : 0 < q) :
    2 ^ Int.log 2 q ≤ roundBits p q ∧ roundBits p q ≤ 2 ^ (Int.log 2 q + 1) := by
  obtain ⟨hlo, hhi⟩ := in_units p hq
  have hpos := two_zpow_pos (K := K) (exponent p q)
  have hunit := zpow_exponent p hq
  obtain ⟨k, rfl⟩ := Nat.exists_eq_succ_of_ne_zero hp.ne'
  have hdouble : ((2 ^ (k + 1) : Int) : K) = ((2 ^ k : Int) : K) * 2 := by push_cast; ring
  constructor
  · have hle : (2 ^ k : Int) ≤ nearestEven (q / 2 ^ exponent (k + 1) q) :=
      le_nearestEven (by linarith)
    have hmul := mul_le_mul_of_nonneg_right (Int.cast_le (R := K).mpr hle) hpos.le
    rw [hdouble, zpow_add_one₀ two_ne_zero] at hunit
    rw [roundBits]
    linarith
  · have hle := nearestEven_le hhi.le
    rw [roundBits, ← hunit]
    exact mul_le_mul_of_nonneg_right (Int.cast_le.mpr hle) hpos.le

theorem roundBits_mono_pos (hp : 0 < p) (hq : 0 < q) (hqr : q ≤ r) : roundBits p q ≤ roundBits p r := by
  have hr := hq.trans_le hqr
  rcases eq_or_lt_of_le (Int.log_mono_right (b := 2) hq hqr) with heq | hlt
  · have hunit : exponent p q = exponent p r := by
      rw [exponent, exponent, abs_of_pos hq, abs_of_pos hr, heq]
    rw [roundBits, roundBits, hunit]
    have hpos := two_zpow_pos (K := K) (exponent p r)
    refine mul_le_mul_of_nonneg_right (Int.cast_le.mpr (nearestEven_mono ?_)) hpos.le
    exact div_le_div_of_nonneg_right hqr hpos.le
  · have hmid : (2 : K) ^ (Int.log 2 q + 1) ≤ 2 ^ Int.log 2 r :=
      zpow_le_zpow_right₀ one_le_two (by omega)
    exact (roundBits_between hp hq).2.trans (hmid.trans (roundBits_between hp hr).1)

theorem roundBits_nonneg (p : Nat) (hq : 0 ≤ q) : 0 ≤ roundBits p q := by
  have h : (nearestEven (0 : K)) ≤ nearestEven (q / 2 ^ exponent p q) :=
    nearestEven_mono (div_nonneg hq (two_zpow_pos _).le)
  have hzero : nearestEven (0 : K) = 0 := by simpa using nearestEven_intCast (K := K) 0
  rw [hzero] at h
  exact mul_nonneg (Int.cast_nonneg h) (two_zpow_pos _).le

theorem roundBits_mono (hp : 0 < p) (h : q ≤ r) : roundBits p q ≤ roundBits p r := by
  rcases lt_trichotomy q 0 with hq | rfl | hq
  · rcases lt_or_ge r 0 with hr | hr
    · have hneg := roundBits_mono_pos (p := p) hp (neg_pos.mpr hr) (neg_le_neg h)
      rw [roundBits_neg, roundBits_neg] at hneg
      exact neg_le_neg_iff.mp hneg
    · have hneg := roundBits_nonneg p (neg_nonneg.mpr hq.le)
      rw [roundBits_neg] at hneg
      exact (neg_nonneg.mp hneg).trans (roundBits_nonneg p hr)
  · rw [roundBits_zero]
    exact roundBits_nonneg p h
  · exact roundBits_mono_pos hp hq h

theorem log_lt_of_lt {e : Int} (hq : 0 < q) (h : q < 2 ^ e) : Int.log 2 q < e := by
  refine (Int.lt_zpow_iff_log_lt one_lt_two hq).mp ?_
  exact_mod_cast h

/-- A number that fits is a whole number of units in its last place. -/
theorem roundBits_eq (h : Representable p q) : roundBits p q = q := by
  obtain ⟨m, e, hm, rfl⟩ := h
  rcases eq_or_ne m 0 with rfl | hne
  · simp
  · have habs : |(m : K) * 2 ^ e| = ((|m| : Int) : K) * 2 ^ e := by
      rw [abs_mul, abs_of_pos (a := (2 : K) ^ e) (two_zpow_pos e), Int.cast_abs]
    have hpos : (0 : K) < |(m : K) * 2 ^ e| :=
      abs_pos.mpr (mul_ne_zero (Int.cast_ne_zero.mpr hne) (two_zpow_pos e).ne')
    have hlt : |(m : K) * 2 ^ e| < 2 ^ (p + e : Int) := by
      rw [habs, zpow_add₀ two_ne_zero, zpow_natCast]
      refine mul_lt_mul_of_pos_right ?_ (two_zpow_pos e)
      exact_mod_cast hm
    have hexp : exponent p ((m : K) * 2 ^ e) ≤ e := by
      have := log_lt_of_lt hpos hlt
      rw [exponent]
      omega
    obtain ⟨k, hk⟩ := Int.eq_ofNat_of_zero_le (sub_nonneg.mpr hexp)
    have hunits : (m : K) * 2 ^ e / 2 ^ exponent p ((m : K) * 2 ^ e) = ((m * 2 ^ k : Int) : K) := by
      rw [mul_div_assoc, ← zpow_sub₀ two_ne_zero, hk]
      push_cast
      rw [zpow_natCast]
    rw [roundBits, hunits, nearestEven_intCast, ← hunits]
    exact div_mul_cancel₀ _ (two_zpow_pos _).ne'

theorem representable_roundBits (hp : 0 < p) (hq : 0 ≤ q) : Representable p (roundBits p q) := by
  rcases hq.eq_or_lt with rfl | hq
  · rw [roundBits_zero]
    exact ⟨0, 0, by simp, by simp⟩
  · have hle := nearestEven_le (in_units p hq).2.le
    have hge : 0 ≤ nearestEven (q / 2 ^ exponent p q) :=
      le_nearestEven (by simpa using div_nonneg hq.le (two_zpow_pos _).le)
    rcases hle.eq_or_lt with heq | hlt
    · refine ⟨1, Int.log 2 q + 1, ?_, ?_⟩
      · rw [abs_one]
        exact one_lt_pow₀ one_lt_two hp.ne'
      · rw [roundBits, heq, zpow_exponent p hq, Int.cast_one, one_mul]
    · exact ⟨_, _, by rwa [abs_of_nonneg hge], rfl⟩

/-- What fits bounds the rounding of everything beyond it. -/
theorem le_roundBits (hp : 0 < p) (hq : Representable p q) (h : q ≤ r) : q ≤ roundBits p r := by
  simpa [roundBits_eq hq] using roundBits_mono hp h

theorem roundBits_le (hp : 0 < p) (hr : Representable p r) (h : q ≤ r) : roundBits p q ≤ r := by
  simpa [roundBits_eq hr] using roundBits_mono hp h

end Round

section Whole

variable {p : Nat} {q : K}

/-- The floor of a number that is less than one `b`th away from `a / b`. Only where `a / b` is
whole can it be another one, the one below. -/
theorem floor_near {a b : Nat} (hb : 0 < b) (h : |q - a / b| < 1 / b) :
    ⌊q⌋ = (a / b : Nat) ∨ (b ∣ a ∧ ⌊q⌋ + 1 = (a / b : Nat)) := by
  have hpos : (0 : K) < b := Nat.cast_pos.mpr hb
  have hdiv : (a : K) = (a / b : Nat) * b + (a % b : Nat) := by
    exact_mod_cast (Nat.div_add_mod' a b).symm
  have hquot : (a : K) / b = (a / b : Nat) + (a % b : Nat) / b := by
    rw [div_eq_iff hpos.ne', add_mul, div_mul_cancel₀ _ hpos.ne', ← hdiv]
  obtain ⟨hlo, hhi⟩ := abs_lt.mp h
  have hrest : ((a % b : Nat) : K) / b + 1 / b ≤ 1 := by
    rw [← add_div, div_le_one hpos]
    exact_mod_cast Nat.mod_lt a hb
  have hupper : q < (a / b : Nat) + 1 := by
    rw [hquot] at hhi
    linarith
  rcases Nat.eq_zero_or_pos (a % b) with hzero | hone
  · have hwhole : (a : K) / b = (a / b : Nat) := by rw [hquot, hzero]; simp
    have hunit : (1 : K) / b ≤ 1 := (div_le_one hpos).mpr (by exact_mod_cast hb)
    rw [hwhole] at hlo
    rcases le_or_gt ((a / b : Nat) : K) q with hge | hlt
    · left
      rw [Int.floor_eq_iff, Int.cast_natCast]
      exact ⟨hge, hupper⟩
    · right
      refine ⟨Nat.dvd_of_mod_eq_zero hzero, eq_sub_iff_add_eq.mp ?_⟩
      rw [Int.floor_eq_iff, Int.cast_sub, Int.cast_natCast, Int.cast_one]
      constructor <;> linarith
  · left
    have hone' : (1 : K) / b ≤ (a % b : Nat) / b :=
      div_le_div_of_nonneg_right (by exact_mod_cast hone) hpos.le
    rw [Int.floor_eq_iff, Int.cast_natCast]
    rw [hquot] at hlo
    exact ⟨by linarith, hupper⟩

/-- Rounding a quotient does not change its whole part, if the dividend fits. -/
theorem floor_roundBits_div {a b : Nat} (hb : 0 < b) (ha : a < 2 ^ p) :
    ⌊roundBits p ((a : K) / b)⌋ = (a / b : Nat) := by
  have hpos : (0 : K) < b := Nat.cast_pos.mpr hb
  have hnear := roundBits_near p ((a : K) / b)
  rw [abs_of_nonneg (div_nonneg (Nat.cast_nonneg a) hpos.le)] at hnear
  have hsmall : (a : K) / b / 2 ^ p < 1 / b := by
    rw [div_right_comm]
    refine div_lt_div_of_pos_right ?_ hpos
    rw [div_lt_one (by positivity)]
    exact_mod_cast ha
  rcases floor_near hb (hnear.trans_lt hsmall) with heq | ⟨hdvd, heq⟩
  · exact heq
  · obtain ⟨k, rfl⟩ := hdvd
    have hk : ((b * k : Nat) : K) / b = (k : Nat) := by
      push_cast
      exact mul_div_cancel_left₀ _ hpos.ne'
    have hfits : k < 2 ^ p := (Nat.le_mul_of_pos_left k hb).trans_lt ha
    rw [hk, roundBits_eq (Representable.of_natCast hfits), Nat.mul_div_cancel_left k hb,
      Int.floor_natCast]

/-- The fraction of a number that fits needs no rounding. -/
theorem Representable.fract (h : Representable p q) (hq : 0 ≤ q) : Representable p (q - ⌊q⌋) := by
  obtain ⟨m, e, hm, rfl⟩ := h
  obtain ⟨m, rfl⟩ : ∃ n : Nat, m = n := by
    refine Int.eq_ofNat_of_zero_le ?_
    have := nonneg_of_mul_nonneg_left hq (two_zpow_pos e)
    exact_mod_cast this
  have hlt : m < 2 ^ p := by rw [Nat.abs_cast] at hm; exact_mod_cast hm
  rcases Int.eq_nat_or_neg e with ⟨k, rfl | rfl⟩
  · have hwhole : ((m : Int) : K) * 2 ^ (k : Int) = ((m * 2 ^ k : Nat) : K) := by
      push_cast
      rw [zpow_natCast]
    rw [hwhole, Int.floor_natCast, Int.cast_natCast, sub_self]
    exact ⟨0, 0, by simp, by simp⟩
  · have hpos : (0 : K) < ((2 ^ k : Nat) : K) := by positivity
    have hquot : ((m : Int) : K) * 2 ^ (-(k : Int)) = (m : K) / ((2 ^ k : Nat) : K) := by
      rw [zpow_neg, zpow_natCast, div_eq_mul_inv, Int.cast_natCast, Nat.cast_pow, Nat.cast_ofNat]
    have hfract : (m : K) / ((2 ^ k : Nat) : K) - ⌊(m : K) / ((2 ^ k : Nat) : K)⌋ =
        (m % 2 ^ k : Nat) / ((2 ^ k : Nat) : K) := by
      have hdiv : (m : K) = (m / 2 ^ k : Nat) * ((2 ^ k : Nat) : K) + (m % 2 ^ k : Nat) := by
        exact_mod_cast (Nat.div_add_mod' m (2 ^ k)).symm
      rw [Int.floor_div_natCast, Int.floor_natCast, ← Int.natCast_div, Int.cast_natCast,
        eq_div_iff hpos.ne', sub_mul, div_mul_cancel₀ _ hpos.ne']
      linarith
    rw [hquot, hfract]
    refine ⟨(m % 2 ^ k : Nat), -(k : Int), ?_, ?_⟩
    · rw [Nat.abs_cast]
      exact_mod_cast (Nat.mod_le m _).trans_lt hlt
    · rw [zpow_neg, zpow_natCast, div_eq_mul_inv, Int.cast_natCast, Nat.cast_pow, Nat.cast_ofNat]

/-- The conversion of C to an integer. -/
def truncate (q : K) : Int := if 0 ≤ q then ⌊q⌋ else ⌈q⌉

omit [IsStrictOrderedRing K] in
theorem truncate_of_nonneg (hq : 0 ≤ q) : truncate q = ⌊q⌋ := if_pos hq

theorem truncate_neg (q : K) : truncate (-q) = -truncate q := by
  rcases lt_trichotomy q 0 with hq | rfl | hq
  · rw [truncate, truncate, if_pos (neg_nonneg.mpr hq.le), if_neg (not_le.mpr hq), Int.floor_neg]
  · simp [truncate]
  · rw [truncate, truncate, if_neg (by simpa using hq), if_pos hq.le, Int.ceil_neg]

theorem truncate_roundBits_natCast_div {a b : Nat} (hb : 0 < b) (ha : a < 2 ^ p) :
    truncate (roundBits p ((a : K) / b)) = (a : Int).tdiv b := by
  have hquot : (0 : K) ≤ a / b := div_nonneg (Nat.cast_nonneg a) (Nat.cast_nonneg b)
  rw [truncate_of_nonneg (roundBits_nonneg p hquot), floor_roundBits_div hb ha]
  rfl

/-- Division of integers by way of the rounded quotient. -/
theorem truncate_roundBits_div {a b : Int} (hb : b ≠ 0) (ha : a.natAbs < 2 ^ p) :
    truncate (roundBits p ((a : K) / b)) = a.tdiv b := by
  have hpos : 0 < b.natAbs := Int.natAbs_pos.mpr hb
  have habs := truncate_roundBits_natCast_div (K := K) hpos ha
  rcases Int.natAbs_eq a with hea | hea <;> rcases Int.natAbs_eq b with heb | heb
  · rw [hea, heb, Int.cast_natCast, Int.cast_natCast, habs]
  · rw [hea, heb, Int.cast_neg, Int.cast_natCast, Int.cast_natCast, div_neg, roundBits_neg,
      truncate_neg, habs, Int.tdiv_neg]
  · rw [hea, heb, Int.cast_neg, Int.cast_natCast, Int.cast_natCast, neg_div, roundBits_neg,
      truncate_neg, habs, Int.neg_tdiv]
  · rw [hea, heb, Int.cast_neg, Int.cast_neg, Int.cast_natCast, Int.cast_natCast, neg_div_neg_eq,
      habs, Int.tdiv_neg, Int.neg_tdiv, neg_neg]

/-- A number that lies in the middle of two others is held with one bit more. -/
theorem representable_half {n : Int} (hq : 2 * |q| < 2 ^ p) (h : |q - n| = 1 / 2) :
    Representable p q := by
  obtain ⟨m, hm⟩ : ∃ m : Int, 2 * q = m := by
    rcases eq_or_eq_neg_of_abs_eq h with hup | hdown
    · exact ⟨2 * n + 1, by push_cast; linarith⟩
    · exact ⟨2 * n - 1, by push_cast; linarith⟩
  refine ⟨m, -1, ?_, ?_⟩
  · have habs : ((|m| : Int) : K) = 2 * |q| := by
      rw [Int.cast_abs, ← hm, abs_mul, abs_two]
    have hlt : ((|m| : Int) : K) < ((2 ^ p : Int) : K) := by
      rw [habs]
      exact_mod_cast hq
    exact_mod_cast hlt
  · rw [← hm, zpow_neg_one, mul_comm (2 : K) q]
    exact (mul_inv_cancel_right₀ two_ne_zero q).symm

/-- Rounding a quotient does not change the whole number next to it, if the dividend leaves a bit
free. -/
theorem nearestEven_roundBits_div {a b : Int} (hb : 0 < b) (ha : 2 * |a| < 2 ^ p) :
    nearestEven (roundBits p ((a : K) / b)) = nearestEven ((a : K) / b) := by
  have hpos : (0 : K) < b := Int.cast_pos.mpr hb
  have hcast : 2 * |(a : K)| < 2 ^ p := by exact_mod_cast ha
  have habs : |(a : K) / b| = |(a : K)| / b := by rw [abs_div, abs_of_pos hpos]
  rcases nearestEven_spec ((a : K) / b) with hlt | ⟨htie, -⟩
  · generalize nearestEven ((a : K) / b) = n at hlt ⊢
    refine nearestEven_eq (.inl ?_)
    have hsub : (a : K) / b - n = ((a - n * b : Int) : K) / b := by
      push_cast
      rw [sub_div, mul_div_cancel_right₀ _ hpos.ne']
    rw [hsub, abs_div, abs_of_pos hpos, ← Int.cast_abs, div_lt_iff₀ hpos] at hlt
    have hscaled : 2 * |a - n * b| + 1 ≤ b := by
      have hdouble : ((2 * |a - n * b| : Int) : K) < b := by
        push_cast at hlt ⊢
        linarith
      exact Int.cast_lt.mp hdouble
    have hroom : |(a : K) / b - n| ≤ 1 / 2 - 1 / (2 * b) := by
      have hle : ((2 * |a - n * b| + 1 : Int) : K) ≤ b := Int.cast_le.mpr hscaled
      rw [hsub, abs_div, abs_of_pos hpos, ← Int.cast_abs, div_le_iff₀ hpos, sub_mul,
        div_mul_eq_mul_div, div_mul_eq_mul_div, one_mul, div_mul_cancel_right₀ hpos.ne']
      push_cast at hle ⊢
      linarith
    have hnear := roundBits_near p ((a : K) / b)
    have hsmall : |(a : K) / b| / 2 ^ p < 1 / (2 * b) := by
      rw [habs, div_div, div_lt_div_iff₀ (by positivity) (by positivity)]
      calc |(a : K)| * (2 * b) = 2 * |(a : K)| * b := by ring
        _ < 2 ^ p * b := mul_lt_mul_of_pos_right hcast hpos
        _ = 1 * (b * 2 ^ p) := by ring
    have htri := abs_sub_le (roundBits p ((a : K) / b)) (a / b) n
    linarith
  · have hfits : 2 * |(a : K) / b| < 2 ^ p := by
      have hone : (1 : K) ≤ b := by exact_mod_cast hb
      rw [habs]
      linarith [div_le_self (abs_nonneg (a : K)) hone]
    rw [roundBits_eq (representable_half hfits htie)]

end Whole

section Quotient

variable {p : Nat} {a b x y u : K}

omit [FloorRing K] in
/-- Operands that are off by the part `u` each. -/
theorem quotient_between (hb : 0 < b) (hx0 : 0 ≤ x) (hy0 : 0 < y) (hx : |x - a| ≤ a * u)
    (hy : |y - b| ≤ b * u) :
    x / y * (1 - u) ≤ a / b * (1 + u) ∧ a / b * (1 - u) ≤ x / y * (1 + u) := by
  obtain ⟨hxlo, hxhi⟩ := abs_le.mp hx
  obtain ⟨hylo, hyhi⟩ := abs_le.mp hy
  have hq : 0 ≤ x / y := div_nonneg hx0 hy0.le
  have hxy : x / y * y = x := div_mul_cancel₀ x hy0.ne'
  have hab : a / b * b = a := div_mul_cancel₀ a hb.ne'
  constructor
  · refine le_of_mul_le_mul_right ?_ hb
    calc x / y * (1 - u) * b = x / y * (b - b * u) := by ring
      _ ≤ x / y * y := mul_le_mul_of_nonneg_left (by linarith) hq
      _ ≤ a + a * u := by linarith
      _ = a / b * b * (1 + u) := by rw [hab]; ring
      _ = a / b * (1 + u) * b := by ring
  · refine le_of_mul_le_mul_right ?_ hb
    calc a / b * (1 - u) * b = a / b * b * (1 - u) := by ring
      _ = a - a * u := by rw [hab]; ring
      _ ≤ x / y * y := by linarith
      _ ≤ x / y * (b + b * u) := mul_le_mul_of_nonneg_left (by linarith) hq
      _ = x / y * (1 + u) * b := by ring

theorem roundBits_near_part (p : Nat) (hq : 0 ≤ a) : |roundBits p a - a| ≤ a * (1 / 2 ^ p) := by
  have hnear := roundBits_near p a
  rwa [abs_of_nonneg hq, div_eq_mul_one_div] at hnear

theorem roundBits_pos (hp : 0 < p) (ha : 0 < a) : 0 < roundBits p a :=
  (two_zpow_pos _).trans_le (roundBits_between hp ha).1

/-- A quotient of rounded operands, rounded itself. -/
theorem roundBits_quotient_near (hp : 3 ≤ p) (ha : 0 ≤ a) (hb : 0 < b) :
    |roundBits p (roundBits p a / roundBits p b) - a / b| ≤ a / b * (4 / 2 ^ p) := by
  have hp0 : 0 < p := by omega
  have hpow : (2 : K) ^ 3 ≤ 2 ^ p := pow_le_pow_right₀ one_le_two hp
  have hu : (1 : K) / 2 ^ p ≤ 1 / 8 := one_div_le_one_div_of_le (by norm_num) (by linarith)
  have hu0 : (0 : K) < 1 / 2 ^ p := by positivity
  have hs : 0 ≤ a / b := div_nonneg ha hb.le
  have hq : 0 ≤ roundBits p a / roundBits p b :=
    div_nonneg (roundBits_nonneg p ha) (roundBits_nonneg p hb.le)
  obtain ⟨hqhi, hqlo⟩ := quotient_between hb (roundBits_nonneg p ha) (roundBits_pos hp0 hb)
    (roundBits_near_part p ha) (roundBits_near_part p hb.le)
  obtain ⟨hzlo, hzhi⟩ := abs_le.mp (roundBits_near_part p hq)
  rw [show (4 : K) / 2 ^ p = 4 * (1 / 2 ^ p) from div_eq_mul_one_div 4 _]
  generalize (1 : K) / 2 ^ p = u at *
  generalize roundBits p (roundBits p a / roundBits p b) = z at *
  generalize roundBits p a / roundBits p b = q at *
  generalize a / b = s at *
  have hsu : 0 ≤ s * u := mul_nonneg hs hu0.le
  have hsquare : s * u * u ≤ s * u * (1 / 8) := mul_le_mul_of_nonneg_left hu hsu
  refine abs_le.mpr ⟨?_, ?_⟩
  · have hchain : s * (1 - 4 * u) * (1 + u) ≤ z * (1 + u) := by
      calc s * (1 - 4 * u) * (1 + u) ≤ s * (1 - u) * (1 - u) := by linarith [mul_nonneg hsu hu0.le]
        _ ≤ q * (1 + u) * (1 - u) := mul_le_mul_of_nonneg_right hqlo (by linarith)
        _ = (q - q * u) * (1 + u) := by ring
        _ ≤ z * (1 + u) := mul_le_mul_of_nonneg_right (by linarith) (by linarith)
    linarith [le_of_mul_le_mul_right hchain (by linarith)]
  · have hchain : z * (1 - u) ≤ s * (1 + 4 * u) * (1 - u) := by
      calc z * (1 - u) ≤ (q + q * u) * (1 - u) := mul_le_mul_of_nonneg_right (by linarith) (by linarith)
        _ = q * (1 - u) * (1 + u) := by ring
        _ ≤ s * (1 + u) * (1 + u) := mul_le_mul_of_nonneg_right hqhi (by linarith)
        _ ≤ s * (1 + 4 * u) * (1 - u) := by linarith
    linarith [le_of_mul_le_mul_right hchain (by linarith)]

end Quotient

end Rounding
