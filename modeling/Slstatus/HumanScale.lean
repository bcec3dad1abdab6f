import Mathlib.Tactic.FieldSimp
import Mathlib.Tactic.Linarith
import Slstatus.Decimal

/-! What `fmt_human` prints, read back as a number: the loop finds the power of the base,
and rounding to a tenth neither moves the number far nor past another one. -/

namespace Slstatus

def prefixes (base : Int) : List Bytes := if base = 1000 then prefix1000 else prefix1024

/-- The quantity that a printed text stands for: digits, a point, a digit, a space and a
prefix of the table. -/
def readHuman (base : Int) (text : Bytes) : Option ℚ :=
  match text.dropWhile isDigit with
  | 46 :: frac :: 32 :: p =>
    ((prefixes base).idxOf? p).map (fun i =>
      (digitsValue (text.takeWhile isDigit) + digitValue frac / 10 : ℚ) * (base : ℚ) ^ i)
  | _ => none

theorem tenths_near {q : ℚ} (hq : 0 ≤ q) : |(tenths q : ℚ) - q * 10| ≤ 1 / 2 := by
  have hfloor := Rat.floor_le (q * 10)
  have hlt := Rat.lt_floor_add_one (q * 10)
  have hnonneg : 0 ≤ (q * 10).floor := Rat.le_floor_iff.mpr (by push_cast; linarith)
  obtain ⟨n, hn⟩ := Int.eq_ofNat_of_zero_le hnonneg
  rw [hn] at hfloor hlt
  push_cast at hfloor hlt
  simp only [tenths, hn, Int.toNat_natCast, Int.cast_natCast]
  rw [abs_le]
  split_ifs with hsmall hlarge
  · constructor <;> linarith
  · push_cast
    constructor <;> linarith
  · have hhalf : q * 10 - n = 1 / 2 := le_antisymm (not_lt.mp hlarge) (not_lt.mp hsmall)
    have hparity : ((n % 2 : Nat) : ℚ) = 0 ∨ ((n % 2 : Nat) : ℚ) = 1 := by
      rcases Nat.mod_two_eq_zero_or_one n with h | h <;> simp [h]
    push_cast at hparity ⊢
    rcases hparity with h | h <;> rw [h] <;> constructor <;> linarith

theorem tenths_mono {p q : ℚ} (hp : 0 ≤ p) (hpq : p ≤ q) : tenths p ≤ tenths q := by
  rcases eq_or_lt_of_le hpq with rfl | hlt
  · exact le_refl _
  · have hnear := abs_le.mp (tenths_near hp)
    have hnear' := abs_le.mp (tenths_near (hp.trans hpq))
    by_contra hgt
    have hstep : (tenths q : ℚ) + 1 ≤ tenths p := by exact_mod_cast Nat.succ_le_of_lt (not_le.mp hgt)
    linarith [hnear.2, hnear'.1]

theorem tenths_natCast (n : Nat) : tenths n = 10 * n := by
  have hnear := abs_le.mp (tenths_near (Nat.cast_nonneg (α := ℚ) n))
  have hlo : ((10 * n : Nat) : ℚ) < (tenths n : ℚ) + 1 := by
    push_cast
    linarith [hnear.1]
  have hhi : (tenths n : ℚ) < ((10 * n : Nat) : ℚ) + 1 := by
    push_cast
    linarith [hnear.2]
  have := Nat.lt_succ_iff.mp (show 10 * n < tenths n + 1 by exact_mod_cast hlo)
  have := Nat.lt_succ_iff.mp (show tenths n < 10 * n + 1 by exact_mod_cast hhi)
  omega

theorem ten_le_tenths {n b : ℚ} (hb : 0 < b) (h : b ≤ n) : 10 ≤ tenths (n / b) := by
  have hone : ((1 : Nat) : ℚ) ≤ n / b := by
    rw [le_div_iff₀ hb, Nat.cast_one, one_mul]
    exact h
  have hmono := tenths_mono (Nat.cast_nonneg 1) hone
  rwa [tenths_natCast] at hmono

theorem fixed1_read (q : ℚ) (p : Bytes) :
    ∃ c, (fixed1 q ++ 32 :: p).dropWhile isDigit = 46 :: c :: 32 :: p ∧
      (digitsValue ((fixed1 q ++ 32 :: p).takeWhile isDigit) + digitValue c / 10 : ℚ) =
        tenths q / 10 := by
  obtain ⟨c, hc, -, hval⟩ := decimal_of_lt_ten (show tenths q % 10 < 10 by omega)
  have hpoint : isDigit 46 = false := rfl
  have htext : fixed1 q ++ 32 :: p = decimal (tenths q / 10) ++ 46 :: c :: 32 :: p := by
    simp [fixed1, hc]
  have hsplit : (tenths q : ℚ) / 10 = (tenths q / 10 : Nat) + ((tenths q % 10 : Nat) : ℚ) / 10 := by
    have h : tenths q = 10 * (tenths q / 10) + tenths q % 10 := (Nat.div_add_mod _ _).symm
    have hcast : (tenths q : ℚ) = 10 * (tenths q / 10 : Nat) + (tenths q % 10 : Nat) := by
      exact_mod_cast h
    rw [hcast]
    ring
  refine ⟨c, ?_, ?_⟩
  · rw [htext, dropWhile_decimal _ hpoint]
  · rw [htext, takeWhile_decimal _ hpoint, digitsValue_decimal, hsplit, hval]

section Scale

variable {base : Nat} {n : ℚ} {left i : Nat}

/-- The loop leaves at the first power that brings the number below the base, if the
prefixes last. -/
theorem scaleLoop_spec (hbase : 0 < base) (hn : (base : ℚ) ^ i ≤ n ∨ i = 0) :
    ∃ k, i ≤ k ∧ k ≤ i + left ∧ scaleLoop base left (n / base ^ i) i = (n / base ^ k, k) ∧
      ((base : ℚ) ^ k ≤ n ∨ k = 0) ∧ (k < i + left → n < (base : ℚ) ^ (k + 1)) := by
  have hb : (0 : ℚ) < base := by exact_mod_cast hbase
  induction left generalizing i with
  | zero => exact ⟨i, le_rfl, le_rfl, rfl, hn, fun h => absurd h (lt_irrefl _)⟩
  | succ left ih =>
    have hpow : (0 : ℚ) < (base : ℚ) ^ i := pow_pos hb i
    by_cases hge : (base : ℚ) ≤ n / base ^ i
    · have hnext : (base : ℚ) ^ (i + 1) ≤ n := by
        rw [pow_succ, mul_comm]
        exact (le_div_iff₀ hpow).mp hge
      obtain ⟨k, hik, hk, hrun, hlo, hhi⟩ := ih (.inl hnext)
      refine ⟨k, by omega, by omega, ?_, hlo, fun h => hhi (by omega)⟩
      rw [scaleLoop, if_pos hge, div_div, ← pow_succ, hrun]
    · refine ⟨i, le_rfl, by omega, by rw [scaleLoop, if_neg hge], hn, fun _ => ?_⟩
      rw [pow_succ, mul_comm]
      exact (div_lt_iff₀ hpow).mp (not_le.mp hge)

end Scale

section Printed

variable {base : Nat} (hbase : base = 1000 ∨ base = 1024)

include hbase

theorem prefixes_length : (prefixes base).length = 9 := by
  rcases hbase with rfl | rfl <;> rfl

theorem prefix_unique {i : Nat} {p : Bytes} (h : (prefixes base)[i]? = some p) :
    (prefixes base).idxOf? p = some i := by
  have hunique : ∀ i : Fin 9, prefix1000.idxOf? (prefix1000.get i) = some i.1 ∧
      prefix1024.idxOf? (prefix1024.get i) = some i.1 := by decide
  obtain ⟨hi, rfl⟩ := List.getElem?_eq_some_iff.mp h
  rcases hbase with rfl | rfl
  · exact (hunique ⟨i, hi⟩).1
  · exact (hunique ⟨i, hi⟩).2

theorem scaleLoop_index (num : UInt64) :
    ∃ i < 9, scaleLoop base 9 num.toNat 0 = (num.toNat / (base : ℚ) ^ i, i) ∧
      ((base : ℚ) ^ i ≤ num.toNat ∨ i = 0) ∧ (num.toNat : ℚ) < (base : ℚ) ^ (i + 1) := by
  obtain ⟨i, -, hi, hrun, hlo, hhi⟩ := @scaleLoop_spec base num.toNat 9 0 (by omega) (.inr rfl)
  rw [pow_zero, div_one] at hrun
  have hin : i < 9 := by
    refine lt_of_le_of_ne (by omega) (fun he => ?_)
    subst he
    have hpow : base ^ 9 ≤ num.toNat := by
      rcases hlo with h | h
      · exact_mod_cast h
      · cases h
    have hnum := num.toNat_lt
    rcases hbase with rfl | rfl <;> omega
  exact ⟨i, hin, hrun, hlo, hhi (by omega)⟩

theorem fmtHuman_prints (num : UInt64) :
    ∃ i p, (prefixes base)[i]? = some p ∧
      scaleLoop base 9 num.toNat 0 = (num.toNat / (base : ℚ) ^ i, i) ∧
      ((base : ℚ) ^ i ≤ num.toNat ∨ i = 0) ∧ (num.toNat : ℚ) < (base : ℚ) ^ (i + 1) ∧
      fmtHuman num base = .ok (some (fixed1 (num.toNat / (base : ℚ) ^ i) ++ 32 :: p)) := by
  obtain ⟨i, hi, hrun, hlo, hhi⟩ := scaleLoop_index hbase num
  obtain ⟨p, hp⟩ : ∃ p, (prefixes base)[i]? = some p :=
    ⟨_, List.getElem?_eq_getElem (by rw [prefixes_length hbase]; exact hi)⟩
  have hwith : fmtHuman num base = fmtHumanWith (prefixes base) base num.toNat := by
    rcases hbase with rfl | rfl <;> rfl
  have hone : (1 : ℚ) ≤ (base : ℚ) ^ i := one_le_pow₀ (by rcases hbase with rfl | rfl <;> norm_num)
  have hnum : (num.toNat : ℚ) ≤ (2 ^ 64 : Nat) := by exact_mod_cast num.toNat_lt.le
  have hlen := fixed1_length_le ((div_le_self (Nat.cast_nonneg num.toNat) hone).trans hnum)
  have hshort : p.length ≤ 2 := by
    have hall : (∀ q ∈ prefix1000, q.length ≤ 2) ∧ ∀ q ∈ prefix1024, q.length ≤ 2 := by decide
    have hmem := List.mem_of_getElem? hp
    rcases hbase with rfl | rfl
    · exact hall.1 p hmem
    · exact hall.2 p hmem
  refine ⟨i, p, hp, hrun, hlo, hhi, ?_⟩
  simp only [hwith, fmtHumanWith, prefixes_length hbase, hrun, hp]
  rw [bprintf, if_neg]
  simp only [List.length_append, List.length_cons]
  omega

theorem readHuman_printed {q : ℚ} {i : Nat} {p : Bytes} (hp : (prefixes base)[i]? = some p) :
    readHuman base (fixed1 q ++ 32 :: p) = some (tenths q / 10 * (base : ℚ) ^ i) := by
  obtain ⟨c, hdrop, hval⟩ := fixed1_read q p
  rw [readHuman, hdrop]
  simp only [prefix_unique hbase hp, Option.map_some, Int.cast_natCast, hval]

/-- A smaller number is not printed as a larger quantity, with the same prefix or with
another one. -/
theorem quantity_mono {m n : Nat} {i j : Nat} (hmn : m ≤ n) (hlo : (base : ℚ) ^ i ≤ m ∨ i = 0)
    (hhi : (m : ℚ) < (base : ℚ) ^ (i + 1)) (hlo' : (base : ℚ) ^ j ≤ n ∨ j = 0)
    (hhi' : (n : ℚ) < (base : ℚ) ^ (j + 1)) :
    (tenths (m / (base : ℚ) ^ i) : ℚ) / 10 * (base : ℚ) ^ i ≤
      (tenths (n / (base : ℚ) ^ j) : ℚ) / 10 * (base : ℚ) ^ j := by
  have hone : (1 : ℚ) < base := by rcases hbase with rfl | rfl <;> norm_num
  have hpos : ∀ k : Nat, (0 : ℚ) < (base : ℚ) ^ k := fun k => pow_pos (by linarith) k
  have hmn' : (m : ℚ) ≤ n := by exact_mod_cast hmn
  rcases Nat.lt_trichotomy i j with hlt | rfl | hgt
  · -- the smaller one is at most the base after rounding, the larger one at least 1
    have hmant : (tenths (m / (base : ℚ) ^ i) : ℚ) / 10 ≤ base := by
      have hle : (m : ℚ) / (base : ℚ) ^ i ≤ base := by
        rw [div_le_iff₀ (hpos i), ← pow_succ']
        exact hhi.le
      have := tenths_mono (div_nonneg (Nat.cast_nonneg m) (hpos i).le) hle
      rw [tenths_natCast] at this
      have hcast : (tenths (m / (base : ℚ) ^ i) : ℚ) ≤ 10 * base := by exact_mod_cast this
      linarith
    have hmant' : 1 ≤ (tenths (n / (base : ℚ) ^ j) : ℚ) / 10 := by
      have hten := ten_le_tenths (hpos j) (hlo'.resolve_right (by omega))
      have hcast : (10 : ℚ) ≤ tenths (n / (base : ℚ) ^ j) := by exact_mod_cast hten
      linarith
    calc (tenths (m / (base : ℚ) ^ i) : ℚ) / 10 * (base : ℚ) ^ i
        ≤ base * (base : ℚ) ^ i := by gcongr
      _ = (base : ℚ) ^ (i + 1) := (pow_succ' _ _).symm
      _ ≤ (base : ℚ) ^ j := pow_le_pow_right₀ hone.le hlt
      _ ≤ (tenths (n / (base : ℚ) ^ j) : ℚ) / 10 * (base : ℚ) ^ j := le_mul_of_one_le_left (hpos j).le hmant'
  · have hle := tenths_mono (div_nonneg (Nat.cast_nonneg m) (hpos i).le)
      (div_le_div_of_nonneg_right hmn' (hpos i).le)
    gcongr
  · -- the power that the smaller one reaches is below the larger one
    have hge : (base : ℚ) ^ i ≤ m := by
      rcases hlo with h | rfl
      · exact h
      · omega
    have := pow_le_pow_right₀ hone.le (show j + 1 ≤ i by omega)
    linarith

end Printed

/-- For the two bases the loop ends inside the table at the power of the base that
brackets the number, and what is printed, read back, is within half a tenth of it and
keeps the order of the numbers. -/
theorem fmtHuman_faithful (num : UInt64) (base : Nat) (hbase : base = 1000 ∨ base = 1024) :
    ∃ i text q, (scaleLoop base (prefixes base).length num.toNat 0).2 = i ∧
      i < (prefixes base).length ∧ (base ^ i ≤ num.toNat ∨ i = 0) ∧ num.toNat < base ^ (i + 1) ∧
      fmtHuman num base = .ok (some text) ∧ readHuman base text = some q ∧
      |q - num.toNat| ≤ 5 / 100 * (base : ℚ) ^ i ∧
      ∀ num' text' q', num ≤ num' → fmtHuman num' base = .ok (some text') →
        readHuman base text' = some q' → q ≤ q' := by
  obtain ⟨i, p, hp, hrun, hlo, hhi, hprint⟩ := fmtHuman_prints hbase num
  have hpos : (0 : ℚ) < (base : ℚ) ^ i := pow_pos (by rcases hbase with rfl | rfl <;> norm_num) i
  have hi : i < (prefixes base).length := (List.getElem?_eq_some_iff.mp hp).1
  refine ⟨i, _, _, ?_, hi, ?_, by exact_mod_cast hhi, hprint, readHuman_printed hbase hp, ?_, ?_⟩
  · rw [prefixes_length hbase, hrun]
  · rcases hlo with h | h
    · exact .inl (by exact_mod_cast h)
    · exact .inr h
  · have hnear := tenths_near (div_nonneg (Nat.cast_nonneg (α := ℚ) num.toNat) hpos.le)
    have hscale : (tenths (num.toNat / (base : ℚ) ^ i) : ℚ) / 10 * (base : ℚ) ^ i - num.toNat =
        ((tenths (num.toNat / (base : ℚ) ^ i) : ℚ) - num.toNat / (base : ℚ) ^ i * 10) / 10 *
          (base : ℚ) ^ i := by
      field_simp
    rw [hscale, abs_mul, abs_of_pos hpos, abs_div]
    have hten : |(10 : ℚ)| = 10 := abs_of_pos (by norm_num)
    rw [hten]
    refine mul_le_mul_of_nonneg_right ?_ hpos.le
    linarith
  · intro num' text' q' hle htext' hq'
    obtain ⟨j, p', hp', -, hlo', hhi', hprint'⟩ := fmtHuman_prints hbase num'
    obtain rfl := Option.some.inj (Except.ok.inj (hprint'.symm.trans htext'))
    obtain rfl := Option.some.inj ((readHuman_printed hbase hp').symm.trans hq')
    exact quantity_mono hbase (UInt64.le_iff_toNat_le.mp hle) hlo hhi hlo' hhi'

theorem fmtHuman_faithful_kib :
    ∃ text q, fmtHuman 1536 1024 = .ok (some text) ∧ readHuman 1024 text = some q ∧
      ∀ num' text' q', 1536 ≤ num' → fmtHuman num' 1024 = .ok (some text') →
        readHuman 1024 text' = some q' → q ≤ q' := by
  obtain ⟨i, text, q, -, -, -, -, htext, hq, -, hmono⟩ := fmtHuman_faithful 1536 1024 (.inr rfl)
  exact ⟨text, q, htext, hq, hmono⟩

end Slstatus
