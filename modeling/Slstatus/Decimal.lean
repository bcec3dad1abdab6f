import Slstatus.FmtHuman
import Slstatus.Scan

/-! Decimal numbers: the bytes that `%d` prints are digits, and their value is the number
that was printed. -/

namespace Slstatus

def digitByte (c : Char) : UInt8 := UInt8.ofNat c.toNat

theorem digitByte_spec {c : Char} (h : c.isDigit = true) :
    isDigit (digitByte c) = true ∧ digitValue (digitByte c) = c.toNat - 48 := by
  rw [Char.isDigit, Bool.and_eq_true, decide_eq_true_eq, decide_eq_true_eq] at h
  have hlo : 48 ≤ c.toNat := h.1
  have hhi : c.toNat ≤ 57 := h.2
  have hnat : (digitByte c).toNat = c.toNat := by
    rw [digitByte, UInt8.toNat_ofNat', Nat.mod_eq_of_lt (by omega)]
  refine ⟨?_, by rw [digitValue, hnat]⟩
  rw [isDigit, Bool.and_eq_true, decide_eq_true_eq, decide_eq_true_eq, UInt8.le_iff_toNat_le,
    UInt8.le_iff_toNat_le, hnat]
  exact ⟨hlo, hhi⟩

theorem isDigit_of_mem_decimal {n : Nat} {c : UInt8} (h : c ∈ decimal n) : isDigit c = true := by
  obtain ⟨d, hd, rfl⟩ := List.mem_map.mp h
  exact (digitByte_spec (Nat.isDigit_of_mem_toDigits (by decide) (by decide) hd)).1

theorem decimal_ne_nil (n : Nat) : decimal n ≠ [] := by
  simp [decimal, Nat.toDigits_ne_nil]

theorem digitsValue_map {cs : List Char} (h : ∀ c ∈ cs, c.isDigit = true) (init : Nat) :
    (cs.map digitByte).foldl (fun n c => n * 10 + digitValue c) init = Nat.ofDigitChars 10 cs init := by
  induction cs generalizing init with
  | nil => rw [Nat.ofDigitChars_nil, List.map_nil, List.foldl_nil]
  | cons c cs ih =>
    rw [List.map_cons, List.foldl_cons, ih (fun d hd => h d (List.mem_cons_of_mem c hd)),
      Nat.ofDigitChars_cons, (digitByte_spec (h c List.mem_cons_self)).2, Nat.mul_comm init]
    rfl

theorem digitsValue_decimal (n : Nat) : digitsValue (decimal n) = n := by
  have hdigits := digitsValue_map
    (fun c hc => Nat.isDigit_of_mem_toDigits (b := 10) (n := n) (by decide) (by decide) hc) 0
  exact hdigits.trans Nat.ofDigitChars_ten_toDigits

theorem decimal_of_lt_ten {d : Nat} (h : d < 10) :
    ∃ c, decimal d = [c] ∧ isDigit c = true ∧ digitValue c = d := by
  have hval := digitsValue_decimal d
  have hdigit := fun c => isDigit_of_mem_decimal (n := d) (c := c)
  rw [decimal, Nat.toDigits_of_lt_base h, List.map_singleton] at hval hdigit
  refine ⟨_, by rw [decimal, Nat.toDigits_of_lt_base h, List.map_singleton],
    hdigit _ List.mem_cons_self, ?_⟩
  simpa [digitsValue] using hval

theorem takeWhile_decimal (n : Nat) {c : UInt8} (hc : isDigit c = false) (rest : Bytes) :
    (decimal n ++ c :: rest).takeWhile isDigit = decimal n := by
  rw [List.takeWhile_append_of_pos (fun d hd => isDigit_of_mem_decimal hd),
    List.takeWhile_cons_of_neg (by simp [hc]), List.append_nil]

theorem dropWhile_decimal (n : Nat) {c : UInt8} (hc : isDigit c = false) (rest : Bytes) :
    (decimal n ++ c :: rest).dropWhile isDigit = c :: rest := by
  rw [List.dropWhile_append_of_pos (fun d hd => isDigit_of_mem_decimal hd),
    List.dropWhile_cons_of_neg (by simp [hc])]

end Slstatus
