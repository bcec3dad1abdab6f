import Slstatus.Double
import Slstatus.HumanScale

/-! `fmt_human` with `scaled` as the double that it is: the number is rounded to 53 bits, and
each quotient again. Every value is between 1 and 2 ^ 64 or zero, so none is subnormal. -/

namespace Slstatus

open Rounding

/-- The loop of `fmt_human` as in `scaleLoop`, on doubles. -/
def scaleDouble (base : Nat) : Nat → ℚ → Nat → ℚ × Nat
  | 0, scaled, i => (scaled, i)
  | left + 1, scaled, i =>
    if (base : ℚ) ≤ scaled then scaleDouble base left (toDouble (scaled / base)) (i + 1)
    else (scaled, i)

def fmtHumanDoubleWith (prefixes : List Bytes) (base : Nat) (scaled : ℚ) :
    Except Fault (Option Bytes) :=
  let (scaled, i) := scaleDouble base prefixes.length scaled 0
  match prefixes[i]? with
  | none => .error .outOfBounds
  | some p => .ok (bprintf (fixed1 scaled ++ 32 :: p))

def fmtHumanDouble (num : UInt64) (base : Int) : Except Fault (Option Bytes) :=
  if base = 1000 then fmtHumanDoubleWith prefix1000 1000 (toDouble num.toNat)
  else if base = 1024 then fmtHumanDoubleWith prefix1024 1024 (toDouble num.toNat)
  else .ok none

variable {base : Nat}

/-- What the loop keeps: the power of the base that has been divided out, up to the rounding
of each quotient, and bounds that the quotients of `num` by the powers keep. -/
structure ScaledTo (base : Nat) (num : ℚ) (scaled : ℚ) (i : Nat) : Prop where
  index : i ≤ 7
  low : 1 ≤ scaled ∨ i = 0 ∧ 0 ≤ scaled
  high : scaled ≤ (base : ℚ) ^ (7 - i)
  near : |scaled * (base : ℚ) ^ i - num| ≤ num * (i + 1) / 2 ^ 52

section Loop

variable {num scaled p q : ℚ} {n i : Nat}

theorem ScaledTo.nonneg (h : ScaledTo base num scaled i) : 0 ≤ scaled := by
  rcases h.low with hone | ⟨-, hzero⟩
  · exact zero_le_one.trans hone
  · exact hzero

variable (hbase : base = 1000 ∨ base = 1024)

include hbase

theorem one_lt_base : (1 : ℚ) < base := by rcases hbase with rfl | rfl <;> norm_num

theorem one_le_base_pow (k : Nat) : (1 : ℚ) ≤ (base : ℚ) ^ k := one_le_pow₀ (one_lt_base hbase).le

theorem representable_base_pow {k : Nat} (hk : k ≤ 7) : Representable 53 ((base : ℚ) ^ k) := by
  have h125 : 125 ^ k < 2 ^ 53 :=
    (Nat.pow_le_pow_right (by decide) hk).trans_lt (by decide)
  rcases hbase with rfl | rfl
  · have heq : ((1000 : Nat) : ℚ) ^ k = ((125 ^ k : Nat) : ℚ) * 2 ^ (3 * k : Int) := by
      rw [zpow_mul]
      push_cast
      rw [zpow_natCast, ← mul_pow]
      norm_num
    rw [heq]
    exact (Representable.of_natCast h125).mul_zpow _
  · have heq : ((1024 : Nat) : ℚ) ^ k = ((1 : Nat) : ℚ) * 2 ^ (10 * k : Int) := by
      rw [zpow_mul]
      push_cast
      rw [zpow_natCast, one_mul]
    rw [heq]
    exact (Representable.of_natCast (by decide)).mul_zpow _

/-- The quotient of one pass, times its power of the base, has moved by one rounding. -/
theorem quotient_near (hs : 0 ≤ scaled) :
    |toDouble (scaled / base) * (base : ℚ) ^ (i + 1) - scaled * (base : ℚ) ^ i| ≤
      scaled * (base : ℚ) ^ i / 2 ^ 53 := by
  have hb : (0 : ℚ) < base := zero_lt_one.trans (one_lt_base hbase)
  have hpow : (0 : ℚ) < (base : ℚ) ^ (i + 1) := pow_pos hb _
  have hround := toDouble_near (scaled / base)
  rw [abs_of_nonneg (div_nonneg hs hb.le)] at hround
  have hcancel : scaled / base * (base : ℚ) ^ (i + 1) = scaled * (base : ℚ) ^ i := by
    rw [pow_succ', ← mul_assoc, div_mul_cancel₀ _ hb.ne']
  rw [← hcancel, ← sub_mul, abs_mul, abs_of_pos hpow, mul_div_right_comm]
  exact mul_le_mul_of_nonneg_right hround hpow.le

/-- One pass of the loop. -/
theorem ScaledTo.next (h : ScaledTo base num scaled i) (hnum : 0 ≤ num) (hge : (base : ℚ) ≤ scaled) :
    ScaledTo base num (toDouble (scaled / base)) (i + 1) := by
  have hone := one_lt_base hbase
  have hb : (0 : ℚ) < base := zero_lt_one.trans hone
  have hlt : i < 7 := by
    refine lt_of_le_of_ne h.index (fun heq => ?_)
    have := h.high
    rw [heq, Nat.sub_self, pow_zero] at this
    linarith
  refine ⟨hlt, .inl ?_, ?_, ?_⟩
  · have hrep : Representable 53 (1 : ℚ) := by
      simpa using Representable.of_natCast (K := ℚ) (n := 1) (p := 53) (by decide)
    exact le_roundBits (by decide) hrep ((one_le_div hb).mpr hge)
  · refine roundBits_le (by decide) (representable_base_pow hbase (by omega)) ?_
    rw [div_le_iff₀ hb, ← pow_succ, show 7 - (i + 1) + 1 = 7 - i by omega]
    exact h.high
  · have hi : ((i : ℚ) + 1) ≤ 2 ^ 52 := by
      have : (i : ℚ) < 7 := by exact_mod_cast hlt
      linarith
    have hnear := h.near
    have hdouble : scaled * (base : ℚ) ^ i ≤ 2 * num := by
      have := (abs_le.mp hnear).2
      nlinarith
    have hquot := quotient_near hbase (i := i) h.nonneg
    have htriangle := abs_sub_le (toDouble (scaled / base) * (base : ℚ) ^ (i + 1))
      (scaled * (base : ℚ) ^ i) num
    push_cast
    linarith

theorem scaledTo_start (n : UInt64) : ScaledTo base n.toNat (toDouble n.toNat) 0 := by
  have hnum : (0 : ℚ) ≤ n.toNat := Nat.cast_nonneg _
  have hlt : (n.toNat : ℚ) < 2 ^ 64 := by exact_mod_cast n.toNat_lt
  have hpow : (2 ^ 64 : ℚ) ≤ (base : ℚ) ^ 7 := by rcases hbase with rfl | rfl <;> norm_num
  refine ⟨by omega, .inr ⟨rfl, roundBits_nonneg 53 hnum⟩, ?_, ?_⟩
  · exact roundBits_le (by decide) (representable_base_pow hbase le_rfl) (hlt.le.trans hpow)
  · have hround := toDouble_near (n.toNat : ℚ)
    rw [abs_of_nonneg hnum] at hround
    rw [pow_zero, mul_one]
    push_cast
    linarith

/-- The loop ends before the prefixes do, with a number below the base. -/
theorem scaleDouble_spec (h : ScaledTo base num scaled i) (hnum : 0 ≤ num) (hleft : 7 < i + n) :
    ∃ s j, scaleDouble base n scaled i = (s, j) ∧ ScaledTo base num s j ∧ s < base := by
  induction n generalizing scaled i with
  | zero =>
    have := h.index
    omega
  | succ n ih =>
    by_cases hge : (base : ℚ) ≤ scaled
    · obtain ⟨s, j, hrun, hs⟩ := ih (h.next hbase hnum hge) (by omega)
      exact ⟨s, j, by rw [scaleDouble, if_pos hge, hrun], hs⟩
    · exact ⟨scaled, i, by rw [scaleDouble, if_neg hge], h, not_le.mp hge⟩

omit hbase in
/-- Of two runs of the loop the one on the smaller number stops first, or at the same
power with the smaller number. -/
theorem scaleDouble_lockstep (h : p ≤ q) :
    (scaleDouble base n p i).2 < (scaleDouble base n q i).2 ∨
      ((scaleDouble base n p i).2 = (scaleDouble base n q i).2 ∧
        (scaleDouble base n p i).1 ≤ (scaleDouble base n q i).1) := by
  have hle (n i : Nat) (r : ℚ) : i ≤ (scaleDouble base n r i).2 := by
    induction n generalizing r i with
    | zero => exact le_rfl
    | succ n ih =>
      rw [scaleDouble]
      split_ifs
      · exact (Nat.le_succ i).trans (ih _ _)
      · exact le_rfl
  induction n generalizing p q i with
  | zero => exact .inr ⟨rfl, h⟩
  | succ n ih =>
    by_cases hp : (base : ℚ) ≤ p
    · rw [scaleDouble, scaleDouble, if_pos hp, if_pos (hp.trans h)]
      exact ih (toDouble_mono (div_le_div_of_nonneg_right h (Nat.cast_nonneg base)))
    · by_cases hq : (base : ℚ) ≤ q
      · rw [scaleDouble, scaleDouble, if_neg hp, if_pos hq]
        exact .inl (hle n (i + 1) _)
      · rw [scaleDouble, scaleDouble, if_neg hp, if_neg hq]
        exact .inr ⟨rfl, h⟩

end Loop

section Printed

variable {base : Nat} (hbase : base = 1000 ∨ base = 1024)

include hbase

theorem prefix_length_le {i : Nat} {p : Bytes} (h : (prefixes base)[i]? = some p) : p.length ≤ 2 := by
  have hall : (∀ q ∈ prefix1000, q.length ≤ 2) ∧ ∀ q ∈ prefix1024, q.length ≤ 2 := by decide
  have hmem := List.mem_of_getElem? h
  rcases hbase with rfl | rfl
  · exact hall.1 p hmem
  · exact hall.2 p hmem

/-- What `fmt_human` prints: the mantissa with the prefix of the power that the loop has
divided out. -/
theorem fmtHumanDouble_prints (num : UInt64) :
    ∃ s i p, scaleDouble base 9 (toDouble num.toNat) 0 = (s, i) ∧
      ScaledTo base num.toNat s i ∧ s < base ∧ (prefixes base)[i]? = some p ∧
      fmtHumanDouble num base = .ok (some (fixed1 s ++ 32 :: p)) := by
  obtain ⟨s, i, hrun, hs, hlt⟩ := scaleDouble_spec hbase (scaledTo_start hbase num)
    (Nat.cast_nonneg _) (n := 9) (by omega)
  obtain ⟨p, hp⟩ : ∃ p, (prefixes base)[i]? = some p :=
    ⟨_, List.getElem?_eq_getElem (by rw [prefixes_length hbase]; have := hs.index; omega)⟩
  have hwith : fmtHumanDouble num base =
      fmtHumanDoubleWith (prefixes base) base (toDouble num.toNat) := by
    rcases hbase with rfl | rfl <;> rfl
  have hsmall : s ≤ (2 ^ 64 : Nat) := by
    refine hlt.le.trans ?_
    rcases hbase with rfl | rfl <;> norm_num
  have hlen := fixed1_length_le hsmall
  have hshort := prefix_length_le hbase hp
  refine ⟨s, i, p, hrun, hs, hlt, hp, ?_⟩
  simp only [hwith, fmtHumanDoubleWith, prefixes_length hbase, hrun, hp]
  rw [bprintf, if_neg]
  simp only [List.length_append, List.length_cons]
  omega

omit hbase in
theorem ScaledTo.num_near {num s : ℚ} {i : Nat} (h : ScaledTo base num s i) (hnum : 0 ≤ num) :
    |s * (base : ℚ) ^ i - num| ≤ num / 2 ^ 49 := by
  refine h.near.trans ?_
  have hi : (i : ℚ) ≤ 7 := by exact_mod_cast h.index
  have : num * (i + 1) ≤ num * 8 := mul_le_mul_of_nonneg_left (by linarith) hnum
  linarith

/-- The printed quantity is half a tenth of the power of the base from the scaled one. -/
theorem printed_near {s : ℚ} (hs : 0 ≤ s) (i : Nat) :
    |(tenths s : ℚ) / 10 * (base : ℚ) ^ i - s * (base : ℚ) ^ i| ≤ 5 / 100 * (base : ℚ) ^ i := by
  have hpos : (0 : ℚ) < (base : ℚ) ^ i := zero_lt_one.trans_le (one_le_base_pow hbase i)
  have hnear := tenths_near hs
  have hsplit : (tenths s : ℚ) / 10 * (base : ℚ) ^ i - s * (base : ℚ) ^ i =
      ((tenths s : ℚ) - s * 10) * ((base : ℚ) ^ i / 10) := by ring
  rw [hsplit, abs_mul, abs_of_pos (div_pos hpos (by norm_num))]
  nlinarith

/-- A mantissa below the base does not pass the next power, and one of at least 1 reaches
its own. -/
theorem printed_mono {p q : ℚ} {i j : Nat} (hp : 0 ≤ p) (hlt : p < base) (hq : 1 ≤ q ∨ j = 0 ∧ 0 ≤ q)
    (h : i < j ∨ (i = j ∧ p ≤ q)) :
    (tenths p : ℚ) / 10 * (base : ℚ) ^ i ≤ (tenths q : ℚ) / 10 * (base : ℚ) ^ j := by
  have hpos (k : Nat) : (0 : ℚ) < (base : ℚ) ^ k := zero_lt_one.trans_le (one_le_base_pow hbase k)
  rcases h with hij | ⟨rfl, hpq⟩
  · have hmant : (tenths p : ℚ) / 10 ≤ base := by
      have := tenths_mono hp hlt.le
      rw [tenths_natCast] at this
      have hcast : (tenths p : ℚ) ≤ 10 * base := by exact_mod_cast this
      linarith
    have hmant' : 1 ≤ (tenths q : ℚ) / 10 := by
      have hten := ten_le_tenths zero_lt_one (hq.resolve_right (by omega))
      rw [div_one] at hten
      have hcast : (10 : ℚ) ≤ tenths q := by exact_mod_cast hten
      linarith
    calc (tenths p : ℚ) / 10 * (base : ℚ) ^ i
        ≤ base * (base : ℚ) ^ i := mul_le_mul_of_nonneg_right hmant (hpos i).le
      _ = (base : ℚ) ^ (i + 1) := (pow_succ' _ _).symm
      _ ≤ (base : ℚ) ^ j := pow_le_pow_right₀ (one_lt_base hbase).le hij
      _ ≤ (tenths q : ℚ) / 10 * (base : ℚ) ^ j := le_mul_of_one_le_left (hpos j).le hmant'
  · have hcast : (tenths p : ℚ) ≤ tenths q := by exact_mod_cast tenths_mono hp hpq
    exact mul_le_mul_of_nonneg_right (by linarith) (hpos i).le

end Printed

/-- With `scaled` a double and every quotient rounded, the loop still ends inside the table for
both bases, at a power of the base that brackets the number to within one part in 2 ^ 49; what is
printed, read back, is within half a tenth of that power and that part of the number, and a larger
number is never printed as a smaller quantity. -/
theorem fmtHumanDouble_faithful (num : UInt64) (base : Nat) (hbase : base = 1000 ∨ base = 1024) :
    ∃ i text q, (scaleDouble base (prefixes base).length (toDouble num.toNat) 0).2 = i ∧
      i < (prefixes base).length ∧
      ((base : ℚ) ^ i ≤ num.toNat * (1 + 1 / 2 ^ 49) ∨ i = 0) ∧
      num.toNat * (1 - 1 / 2 ^ 49) < (base : ℚ) ^ (i + 1) ∧
      fmtHumanDouble num base = .ok (some text) ∧ readHuman base text = some q ∧
      |q - num.toNat| ≤ 5 / 100 * (base : ℚ) ^ i + num.toNat / 2 ^ 49 ∧
      ∀ num' text' q', num ≤ num' → fmtHumanDouble num' base = .ok (some text') →
        readHuman base text' = some q' → q ≤ q' := by
  obtain ⟨s, i, p, hrun, hs, hlt, hp, hprint⟩ := fmtHumanDouble_prints hbase num
  have hnum : (0 : ℚ) ≤ num.toNat := Nat.cast_nonneg _
  have hpos : (0 : ℚ) < (base : ℚ) ^ i := zero_lt_one.trans_le (one_le_base_pow hbase i)
  have hnear := hs.num_near hnum
  obtain ⟨hnearlo, hnearhi⟩ := abs_le.mp hnear
  refine ⟨i, _, _, ?_, (List.getElem?_eq_some_iff.mp hp).1, ?_, ?_, hprint,
    readHuman_printed hbase hp, ?_, ?_⟩
  · rw [prefixes_length hbase, hrun]
  · rcases hs.low with hone | ⟨hzero, -⟩
    · have : (base : ℚ) ^ i ≤ s * (base : ℚ) ^ i := le_mul_of_one_le_left hpos.le hone
      exact .inl (by linarith)
    · exact .inr hzero
  · have : s * (base : ℚ) ^ i < (base : ℚ) ^ (i + 1) := by
      rw [pow_succ']
      exact mul_lt_mul_of_pos_right hlt hpos
    linarith
  · exact (abs_sub_le _ (s * (base : ℚ) ^ i) _).trans
      (add_le_add (printed_near hbase hs.nonneg i) hnear)
  · intro num' text' q' hle htext' hq'
    obtain ⟨s', j, p', hrun', hs', -, hp', hprint'⟩ := fmtHumanDouble_prints hbase num'
    obtain rfl := Option.some.inj (Except.ok.inj (hprint'.symm.trans htext'))
    obtain rfl := Option.some.inj ((readHuman_printed hbase hp').symm.trans hq')
    have hcast : (num.toNat : ℚ) ≤ num'.toNat := by exact_mod_cast UInt64.le_iff_toNat_le.mp hle
    have hstep := @scaleDouble_lockstep base _ _ 9 0 (toDouble_mono hcast)
    rw [hrun, hrun'] at hstep
    exact printed_mono hbase hs.nonneg hlt hs'.low hstep

theorem fmtHumanDouble_faithful_si :
    ∃ text q, fmtHumanDouble 999999999999999999 1000 = .ok (some text) ∧
      readHuman 1000 text = some q ∧
      ∀ num' text' q', 999999999999999999 ≤ num' → fmtHumanDouble num' 1000 = .ok (some text') →
        readHuman 1000 text' = some q' → q ≤ q' := by
  obtain ⟨i, text, q, -, -, -, -, htext, hq, -, hmono⟩ :=
    fmtHumanDouble_faithful 999999999999999999 1000 (.inl rfl)
  exact ⟨text, q, htext, hq, hmono⟩

section Kib

/-- A quotient by 1024 has the same bits. -/
theorem scaleDouble_kib (left : Nat) {q : ℚ} (hq : Representable 53 q) (i : Nat) :
    scaleDouble 1024 left q i = scaleLoop 1024 left q i := by
  induction left generalizing q i with
  | zero => rfl
  | succ left ih =>
    have hdiv : q / (1024 : Nat) = q * 2 ^ (-10 : Int) := by norm_num; ring
    have hnext : Representable 53 (q / (1024 : Nat)) := hdiv ▸ hq.mul_zpow (-10)
    simp only [scaleDouble, scaleLoop, toDouble_eq hnext, ih hnext]

theorem toNat_double (n : Nat) : (((double n).toNat : Nat) : ℚ) = toDouble n := by
  have hcast := double_natCast n
  have hnonneg : 0 ≤ double n := by
    have : (0 : ℚ) ≤ toDouble n := roundBits_nonneg 53 (Nat.cast_nonneg n)
    rw [← hcast] at this
    exact_mod_cast this
  rw [← hcast]
  exact_mod_cast congrArg (Int.cast (R := ℚ)) (Int.toNat_of_nonneg hnonneg)

end Kib

/-- For base 1024 the only rounding is that of the number itself: the text is the exact one of the
nearest double, and so the exact one of every number that a double holds, in particular of every
number below 2 ^ 53. -/
theorem fmtHumanDouble_exact (num : UInt64) :
    fmtHumanDouble num 1024 = fmtHumanWith prefix1024 1024 (double num.toNat).toNat ∧
      (Representable 53 (num.toNat : ℚ) → fmtHumanDouble num 1024 = fmtHuman num 1024) := by
  have hrep : Representable 53 (toDouble num.toNat) :=
    representable_roundBits (by decide) (Nat.cast_nonneg _)
  have hloop : fmtHumanDouble num 1024 = fmtHumanWith prefix1024 1024 (double num.toNat).toNat := by
    cases hprefix : prefix1024[(scaleLoop 1024 prefix1024.length (toDouble num.toNat) 0).2]? <;>
      simp only [fmtHumanDouble, show ¬ (1024 : Int) = 1000 by decide, if_false, if_true,
        fmtHumanDoubleWith, fmtHumanWith, scaleDouble_kib _ hrep, toNat_double, hprefix]
  refine ⟨hloop, ?_⟩
  intro hnum
  have hsame : (double num.toNat).toNat = num.toNat := by
    have := toNat_double num.toNat
    rw [toDouble_eq hnum] at this
    exact_mod_cast this
  rw [hloop, hsame]
  rfl

end Slstatus
