import Slstatus.ConfDocument
import Slstatus.ScrollText

/-! When `scroll_text` comes to its end: the sizes of its two arrays are numbers that
an `int` can hold and are not negative, and the cycle it scrolls over is not empty. -/

namespace Slstatus

/-- The value of an expression of type `int`, if it does not overflow. -/
def intValue (x : Int) : Option Int := if -2 ^ 31 ≤ x ∧ x < 2 ^ 31 then some x else none

/-- A call of `scroll_text` does what it should: `num_chars * 5`, which sizes
`output_text`, and `num_chars + 1`, which sizes `loop_spaces`, are not negative, and
the call returns, so that it neither divides by zero nor copies forever. -/
structure ScrollSafe (g : GraphemeBreak) (inputText : Bytes) (idx : Int) (numChars : Int32)
    (loopText : Option Bytes) (onTextFits : OnTextFits) : Prop where
  outputSize : ∃ size, intValue (numChars.toInt * 5) = some size ∧ 0 ≤ size
  spacesSize : ∃ size, intValue (numChars.toInt + 1) = some size ∧ 0 ≤ size
  returns : ∃ text, scrollText g inputText idx numChars.toInt loopText onTextFits = .ok text

theorem intValue_nonneg_iff {x : Int} : (∃ n, intValue x = some n ∧ 0 ≤ n) ↔ 0 ≤ x ∧ x < 2 ^ 31 := by
  unfold intValue
  constructor
  · intro hex
    obtain ⟨n, hn, hpos⟩ := hex
    split_ifs at hn with hrange
    obtain rfl := Option.some.inj hn
    exact ⟨hpos, hrange.2⟩
  · intro h
    have hrange : -2 ^ 31 ≤ x ∧ x < 2 ^ 31 := ⟨by omega, h.2⟩
    exact ⟨x, if_pos hrange, h.1⟩

section Cycle

variable {g : GraphemeBreak} {inputText : Bytes} {idx numChars : Int} {loopText : Option Bytes}
  {onTextFits : OnTextFits}

theorem separator_nil_eq_nil (hnum : 0 ≤ numChars) :
    separator g [] numChars loopText onTextFits = [] ↔
      ¬ ((loopText = none ∨ onTextFits ≠ .forceScroll → numChars ≠ 0) ∧
        (onTextFits = .forceScroll → loopText ≠ some [])) := by
  have hspaces : List.replicate numChars.toNat (32 : UInt8) = [] ↔ numChars = 0 := by
    rw [List.replicate_eq_nil_iff]
    omega
  cases loopText with
  | none => simp [separator, hspaces]
  | some loop =>
    by_cases hforce : onTextFits = .forceScroll
    · simp [separator, hforce]
    · simp [separator, hforce, seg_nil, hnum, hspaces]

theorem scrollCycle_ne_nil_iff (hnum : 0 ≤ numChars) :
    scrollCycle g inputText numChars loopText onTextFits ≠ [] ↔
      (inputText = [] →
        (loopText = none ∨ onTextFits ≠ .forceScroll → numChars ≠ 0) ∧
        (onTextFits = .forceScroll → loopText ≠ some [])) := by
  rw [ne_eq, scrollCycle, List.append_eq_nil_iff, seg_eq_nil, seg_eq_nil, not_and]
  apply forall_congr'
  intro hinput
  rw [hinput, separator_nil_eq_nil hnum, not_not]

theorem scrollText_returns_iff (hnum : 0 ≤ numChars) :
    (∃ text, scrollText g inputText idx numChars loopText onTextFits = .ok text) ↔
      scrollCycle g inputText numChars loopText onTextFits ≠ [] := by
  constructor
  · intro hex hcycle
    obtain ⟨text, htext⟩ := hex
    rw [scrollText_eq_copyFrom hnum, if_pos hcycle] at htext
    cases htext
  · intro hcycle
    exact ⟨_, scrollText_eq_window idx hnum hcycle⟩

end Cycle

/-- A call is safe exactly when the length is a number from 0 to `INT_MAX / 5`, and an
empty text comes with a length other than 0 if spaces separate it, and with a
separator that is not empty if the configured one does. -/
theorem scrollText_safe_iff (g : GraphemeBreak) (inputText : Bytes) (idx : Int) (numChars : Int32)
    (loopText : Option Bytes) (onTextFits : OnTextFits) :
    ScrollSafe g inputText idx numChars loopText onTextFits ↔
      0 ≤ numChars.toInt ∧ numChars.toInt ≤ 429496729 ∧
      (inputText = [] →
        (loopText = none ∨ onTextFits ≠ .forceScroll → numChars.toInt ≠ 0) ∧
        (onTextFits = .forceScroll → loopText ≠ some [])) := by
  constructor
  · intro h
    have hsize := intValue_nonneg_iff.mp h.outputSize
    have hnum : 0 ≤ numChars.toInt := by omega
    refine ⟨hnum, by omega, ?_⟩
    rw [← scrollCycle_ne_nil_iff (g := g) hnum, ← scrollText_returns_iff hnum]
    exact h.returns
  · intro h
    obtain ⟨hnum, hmax, hempty⟩ := h
    refine ⟨intValue_nonneg_iff.mpr (by omega), intValue_nonneg_iff.mpr (by omega), ?_⟩
    rw [scrollText_returns_iff hnum, scrollCycle_ne_nil_iff hnum]
    exact hempty

def mpdSettings (titleLength : Int32) (loopText onTextFits : String) : Setting :=
  .group [("mpd.title_length", .int titleLength), ("mpd.loop_text", .string (lit loopText)),
    ("mpd.on_text_fits", .string (lit onTextFits))]

theorem titleLength_stored (titleLength : Int32) (loopText onTextFits : String) :
    (loadConfig settings true (some (mpdSettings titleLength loopText onTextFits))).mpdTitleLength =
      titleLength := rfl

theorem scrollText_unsafe :
    let c := loadConfig settings true (some (mpdSettings 20 "" "FORCE_SCROLL"))
    ¬ ScrollSafe acuteBreak [] 0 c.mpdTitleLength c.mpdLoopText c.mpdOnTextFits := by
  intro c h
  have hrun : scrollText acuteBreak [] 0 20 (some []) .forceScroll = .error .divByZero := by decide
  obtain ⟨text, htext⟩ := h.returns
  have heq : scrollText acuteBreak [] 0 c.mpdTitleLength.toInt c.mpdLoopText c.mpdOnTextFits =
      .error .divByZero := hrun
  rw [heq] at htext
  cases htext

end Slstatus
