import Mathlib.Data.Rat.Floor
import Slstatus.Printf

/-! `fmt_human` of util.c. The double `scaled` is taken as an exact rational, and
`%.1f` rounds to the nearest tenth, ties to even. -/

namespace Slstatus

def decimal (n : Nat) : Bytes := (Nat.toDigits 10 n).map (fun c => UInt8.ofNat c.toNat)

def decimalInt (z : Int) : Bytes := if z < 0 then 45 :: decimal z.natAbs else decimal z.natAbs

def tenths (q : ℚ) : Nat :=
  let n := (q * 10).floor
  let rest := q * 10 - n
  if rest < 1 / 2 then n.toNat
  else if 1 / 2 < rest then n.toNat + 1
  else n.toNat + n.toNat % 2

def fixed1 (q : ℚ) : Bytes := decimal (tenths q / 10) ++ 46 :: decimal (tenths q % 10)

def prefix1000 : List Bytes := [lit "", lit "k", lit "M", lit "G", lit "T", lit "P", lit "E",
  lit "Z", lit "Y"]

def prefix1024 : List Bytes := [lit "", lit "Ki", lit "Mi", lit "Gi", lit "Ti", lit "Pi",
  lit "Ei", lit "Zi", lit "Yi"]

/-- `for (i = 0; i < prefixlen && scaled >= base; i++) scaled /= base;` where the
first argument counts the prefixes left. -/
def scaleLoop (base : Nat) : Nat → ℚ → Nat → ℚ × Nat
  | 0, scaled, i => (scaled, i)
  | left + 1, scaled, i =>
    if (base : ℚ) ≤ scaled then scaleLoop base left (scaled / base) (i + 1) else (scaled, i)

def fmtHumanWith (prefixes : List Bytes) (base num : Nat) : Except Fault (Option Bytes) :=
  let (scaled, i) := scaleLoop base prefixes.length num 0
  match prefixes[i]? with
  | none => .error .outOfBounds
  | some p => .ok (bprintf (fixed1 scaled ++ 32 :: p))

def fmtHuman (num : UInt64) (base : Int) : Except Fault (Option Bytes) :=
  if base = 1000 then fmtHumanWith prefix1000 1000 num.toNat
  else if base = 1024 then fmtHumanWith prefix1024 1024 num.toNat
  else .ok none

theorem decimal_length_le {n k : Nat} (hk : 0 < k) (h : n < 10 ^ k) : (decimal n).length ≤ k := by
  rw [decimal, List.length_map]
  exact (Nat.length_toDigits_le_iff (by omega) hk).mpr h

theorem tenths_le {q : ℚ} {n : Nat} (h : q ≤ n) : tenths q ≤ 10 * n + 1 := by
  have hfloor : (q * 10).floor ≤ 10 * n := by
    have hle : ((q * 10).floor : ℚ) ≤ ((10 * n : Int) : ℚ) := by
      push_cast
      linarith [Rat.floor_le (q * 10)]
    exact_mod_cast hle
  simp only [tenths]
  split_ifs <;> omega

theorem fixed1_length_le {q : ℚ} (h : q ≤ (2 ^ 64 : Nat)) : (fixed1 q).length ≤ 22 := by
  have htenths := tenths_le h
  have hwhole := decimal_length_le (n := tenths q / 10) (k := 20) (by omega) (by omega)
  have hfrac := decimal_length_le (n := tenths q % 10) (k := 1) (by omega) (by omega)
  simp only [fixed1, List.length_append, List.length_cons]
  omega

theorem scaleLoop_le {base : Nat} (hbase : 1 ≤ base) (left : Nat) {q : ℚ} (hq : 0 ≤ q) (i : Nat) :
    (scaleLoop base left q i).1 ≤ q := by
  have hb : (1 : ℚ) ≤ base := by exact_mod_cast hbase
  induction left generalizing q i with
  | zero => exact le_refl q
  | succ left ih =>
    simp only [scaleLoop]
    split_ifs
    · exact (ih (div_nonneg hq (by linarith)) (i + 1)).trans (div_le_self hq hb)
    · exact le_refl q

theorem fmtHuman_isSome {num : UInt64} {text : Option Bytes}
    (h : fmtHuman num 1024 = .ok text) : text.isSome := by
  have hnum : (num.toNat : ℚ) ≤ (2 ^ 64 : Nat) := by exact_mod_cast num.toNat_lt.le
  have hscaled := (scaleLoop_le (show 1 ≤ 1024 by decide) prefix1024.length
    (Nat.cast_nonneg num.toNat) 0).trans hnum
  have hlen := fixed1_length_le hscaled
  have hprefix : ∀ p ∈ prefix1024, p.length ≤ 2 := by decide
  simp only [fmtHuman, fmtHumanWith, show ¬ (1024 : Int) = 1000 by decide, if_false, if_true] at h
  split at h
  · cases h
  · rename_i p hp
    have hp2 := hprefix p (List.mem_of_getElem? hp)
    obtain rfl := Except.ok.inj h
    rw [bprintf, if_neg]
    · rfl
    · simp only [List.length_append, List.length_cons]
      omega

example : fmtHuman 1536 1024 = .ok (some (lit "1.5 Ki")) := by decide +kernel

end Slstatus
