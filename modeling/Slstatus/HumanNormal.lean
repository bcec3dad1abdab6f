import Slstatus.HumanScale

/-! The mantissa that `fmt_human` prints. The prefix is chosen before the rounding, so just
below a power of the base the text shows the base itself. -/

namespace Slstatus

/-- The number before the prefix: digits, a point, a digit, a space. -/
def readMantissa (text : Bytes) : Option ℚ :=
  match text.dropWhile isDigit with
  | 46 :: frac :: 32 :: _ => some (digitsValue (text.takeWhile isDigit) + digitValue frac / 10)
  | _ => none

structure NormalText (base num : Nat) (text : Bytes) : Prop where
  mantissa : ∃ m, readMantissa text = some m ∧ m < base ∧ (base ≤ num → 1 ≤ m)
  rollsOver : ∀ i p, (base ^ i ≤ num ∨ i = 0) → num < base ^ (i + 1) →
    tenths (num / (base : ℚ) ^ i) = 10 * base → (prefixes base)[i + 1]? = some p →
      text = lit "1.0 " ++ p

theorem readMantissa_printed (q : ℚ) (p : Bytes) :
    readMantissa (fixed1 q ++ 32 :: p) = some (tenths q / 10 : ℚ) := by
  obtain ⟨c, hdrop, hval⟩ := fixed1_read q p
  rw [readMantissa, hdrop]
  exact congrArg some hval

/-- Half a tenth below a whole number is a tie, and the even neighbour is the whole number. -/
theorem tenths_tie {base : Nat} (hbase : 0 < base) : tenths (base - 1 / 20) = 10 * base := by
  have hten : ((base : ℚ) - 1 / 20) * 10 = (10 * base - 1 : Int) + 1 / 2 := by
    push_cast
    ring
  have hfloor : (((base : ℚ) - 1 / 20) * 10).floor = 10 * base - 1 := by
    have hle := Rat.floor_le (((base : ℚ) - 1 / 20) * 10)
    have hlt := Rat.lt_floor_add_one (((base : ℚ) - 1 / 20) * 10)
    have hle' : ((((base : ℚ) - 1 / 20) * 10).floor : ℚ) < (10 * base : Int) := by
      push_cast
      linarith
    have hlt' : ((10 * base - 1 : Int) : ℚ) < ((((base : ℚ) - 1 / 20) * 10).floor + 1 : Int) := by
      push_cast at hlt ⊢
      linarith
    rw [Int.cast_lt] at hle' hlt'
    omega
  have hrest : ((base : ℚ) - 1 / 20) * 10 - ((10 * base - 1 : Int) : ℚ) = 1 / 2 := by
    rw [hten]
    ring
  simp only [tenths, hfloor, hrest, lt_irrefl, if_false]
  omega

theorem tenths_lt_iff {base : Nat} (hbase : 0 < base) {q : ℚ} (hq : 0 ≤ q) :
    tenths q < 10 * base ↔ 20 * q < 20 * base - 1 := by
  have hone : (1 : ℚ) ≤ base := by exact_mod_cast hbase
  constructor
  · intro hlt
    by_contra hge
    have hmono := tenths_mono (show (0 : ℚ) ≤ base - 1 / 20 by linarith)
      (show (base : ℚ) - 1 / 20 ≤ q by linarith)
    rw [tenths_tie hbase] at hmono
    omega
  · intro hlt
    have hnear := (abs_le.mp (tenths_near hq)).2
    have hcast : (tenths q : ℚ) < (10 * base : Nat) := by
      push_cast
      linarith
    exact_mod_cast hcast

theorem bracket_unique {base : ℚ} {n : ℚ} {i j : Nat} (hone : 1 < base)
    (hlo : base ^ i ≤ n ∨ i = 0) (hhi : n < base ^ (i + 1)) (hlo' : base ^ j ≤ n ∨ j = 0)
    (hhi' : n < base ^ (j + 1)) : i = j := by
  rcases Nat.lt_trichotomy i j with hlt | heq | hgt
  · have hge := hlo'.resolve_right (by omega)
    exact absurd (hhi.trans_le (pow_le_pow_right₀ hone.le hlt)) (not_lt.mpr hge)
  · exact heq
  · have hge := hlo.resolve_right (by omega)
    exact absurd (hhi'.trans_le (pow_le_pow_right₀ hone.le hgt)) (not_lt.mpr hge)

section Printed

variable {base : Nat} (hbase : base = 1000 ∨ base = 1024)

include hbase

/-- Below the tie the prefix that the loop found is the right one. -/
theorem normalText_printed {num i : Nat} {p : Bytes} (hlo : (base : ℚ) ^ i ≤ num ∨ i = 0)
    (hhi : (num : ℚ) < (base : ℚ) ^ (i + 1))
    (hbelow : tenths (num / (base : ℚ) ^ i) < 10 * base) :
    NormalText base num (fixed1 (num / (base : ℚ) ^ i) ++ 32 :: p) := by
  have hone : (1 : ℚ) < base := by rcases hbase with rfl | rfl <;> norm_num
  have hpos : (0 : ℚ) < (base : ℚ) ^ i := pow_pos (by linarith) i
  refine ⟨⟨_, readMantissa_printed _ p, ?_, ?_⟩, ?_⟩
  · have hcast : (tenths (num / (base : ℚ) ^ i) : ℚ) < 10 * base := by exact_mod_cast hbelow
    linarith
  · intro hnum
    have hlow : (base : ℚ) ^ i ≤ num := by
      rcases hlo with h | rfl
      · exact h
      · rw [pow_zero]
        exact hone.le.trans (by exact_mod_cast hnum)
    have hten := ten_le_tenths hpos hlow
    have hcast : (10 : ℚ) ≤ tenths (num / (base : ℚ) ^ i) := by exact_mod_cast hten
    linarith
  · intro j p' hlo' hhi' htie
    have hij : i = j := bracket_unique hone hlo hhi
      (hlo'.imp_left (fun h => by exact_mod_cast h)) (by exact_mod_cast hhi')
    rw [← hij] at htie
    omega

theorem normalText_iff {num i : Nat} {p : Bytes} (hlo : (base : ℚ) ^ i ≤ num ∨ i = 0)
    (hhi : (num : ℚ) < (base : ℚ) ^ (i + 1)) :
    NormalText base num (fixed1 (num / (base : ℚ) ^ i) ++ 32 :: p) ↔
      tenths (num / (base : ℚ) ^ i) < 10 * base := by
  constructor
  · rintro ⟨⟨m, hm, hlt, -⟩, -⟩
    obtain rfl := Option.some.inj ((readMantissa_printed _ p).symm.trans hm)
    have hcast : (tenths (num / (base : ℚ) ^ i) : ℚ) < (10 * base : Nat) := by
      push_cast
      linarith
    exact_mod_cast hcast
  · exact normalText_printed hbase hlo hhi

/-- Of the conditions at all powers only the one at the power that brackets the number says
something. -/
theorem below_ties_iff {num i : Nat} (hlo : (base : ℚ) ^ i ≤ num ∨ i = 0)
    (hhi : (num : ℚ) < (base : ℚ) ^ (i + 1)) :
    tenths (num / (base : ℚ) ^ i) < 10 * base ↔
      ∀ k, num < base ^ (k + 1) → 20 * num < (20 * base - 1) * base ^ k := by
  have hpos : 0 < base := by rcases hbase with rfl | rfl <;> decide
  have hpow : (0 : ℚ) < (base : ℚ) ^ i := pow_pos (by exact_mod_cast hpos) i
  have hat : tenths (num / (base : ℚ) ^ i) < 10 * base ↔
      20 * num < (20 * base - 1) * base ^ i := by
    rw [tenths_lt_iff hpos (div_nonneg (Nat.cast_nonneg num) hpow.le), ← mul_div_assoc,
      div_lt_iff₀ hpow, ← Nat.cast_lt (α := ℚ), Nat.cast_mul, Nat.cast_mul, Nat.cast_pow,
      Nat.cast_sub (by omega)]
    push_cast
    rfl
  rw [hat]
  constructor
  · intro hi k hk
    rcases Nat.lt_trichotomy i k with hlt | rfl | hgt
    · have hle : base ^ (i + 1) ≤ base ^ k := Nat.pow_le_pow_right hpos hlt
      have hnum : num < base ^ (i + 1) := by exact_mod_cast hhi
      calc 20 * num < 20 * base ^ k := by omega
        _ ≤ (20 * base - 1) * base ^ k := Nat.mul_le_mul_right _ (by omega)
    · exact hi
    · have hle : base ^ (k + 1) ≤ base ^ i := Nat.pow_le_pow_right hpos hgt
      have hnum : base ^ i ≤ num := by exact_mod_cast hlo.resolve_right (by omega)
      omega
  · intro hall
    exact hall i (by exact_mod_cast hhi)

end Printed

/-- What is printed is normal exactly when the number is more than half a tenth of a unit
away from the next prefix. -/
theorem fmtHuman_normal_iff (num : UInt64) (base : Nat) (hbase : base = 1000 ∨ base = 1024) :
    (∃ text, fmtHuman num base = .ok (some text) ∧ NormalText base num.toNat text) ↔
      ∀ k, num.toNat < base ^ (k + 1) → 20 * num.toNat < (20 * base - 1) * base ^ k := by
  obtain ⟨i, p, -, -, hlo, hhi, hprint⟩ := fmtHuman_prints hbase num
  rw [← below_ties_iff hbase hlo hhi, ← normalText_iff hbase (p := p) hlo hhi]
  constructor
  · rintro ⟨text, htext, hnormal⟩
    obtain rfl := Option.some.inj (Except.ok.inj (hprint.symm.trans htext))
    exact hnormal
  · intro hnormal
    exact ⟨_, hprint, hnormal⟩

theorem fmtHuman_normal_kib :
    ∃ text, fmtHuman 1536 1024 = .ok (some text) ∧
      NormalText 1024 (1536 : UInt64).toNat text := by
  apply (fmtHuman_normal_iff 1536 1024 (.inr rfl)).mpr
  intro k hk
  cases k with
  | zero => exact absurd hk (by decide)
  | succ k =>
    have hpow : 1 ≤ 1024 ^ k := Nat.one_le_pow _ _ (by decide)
    have hnum : (1536 : UInt64).toNat = 1536 := rfl
    rw [hnum, pow_succ]
    omega

/-- One byte below a mebibyte: the mantissa is the base. -/
theorem fmtHuman_not_normal :
    fmtHuman 1048575 1024 = .ok (some (lit "1024.0 Ki")) ∧
      ¬ ∃ text, fmtHuman 1048575 1024 = .ok (some text) ∧
        NormalText 1024 (1048575 : UInt64).toNat text := by
  have hrun : fmtHuman 1048575 1024 = .ok (some (lit "1024.0 Ki")) := by decide +kernel
  have hread : readMantissa (lit "1024.0 Ki") = some 1024 := by decide +kernel
  refine ⟨hrun, ?_⟩
  rintro ⟨text, htext, ⟨m, hm, hlt, -⟩, -⟩
  obtain rfl := Option.some.inj (Except.ok.inj (hrun.symm.trans htext))
  obtain rfl := Option.some.inj (hread.symm.trans hm)
  exact lt_irrefl _ hlt

end Slstatus
