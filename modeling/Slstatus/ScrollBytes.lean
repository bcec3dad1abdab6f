import Mathlib.Algebra.Group.Action.Defs
import Mathlib.Algebra.Order.BigOperators.Group.List
import Slstatus.ScrollText

/-! The bytes that `scroll_text` stores, against the five for each cluster that it
allocates. -/

namespace Slstatus

variable (g : GraphemeBreak)

section Width

variable {g} {inputText : Bytes} {idx numChars : Int} {loopText : Option Bytes}
  {onTextFits : OnTextFits}

theorem sum_seg (s : Bytes) : ((g.seg s).map List.length).sum = s.length := by
  rw [← List.length_flatten, seg_flatten]

theorem sum_scrollCycle :
    ((scrollCycle g inputText numChars loopText onTextFits).map List.length).sum =
      inputText.length + (separator g inputText numChars loopText onTextFits).length := by
  rw [scrollCycle, List.map_append, List.sum_append, sum_seg, sum_seg]

theorem length_window_flatten {cycle : List Bytes} (k : Int) (m : Nat) :
    (Window.window cycle k m).flatten.length =
      m / cycle.length * (cycle.map List.length).sum +
        ((Window.window cycle k (m % cycle.length)).map List.length).sum := by
  rw [← Window.sum_window, Nat.div_add_mod', List.length_flatten]

end Width

theorem scrollText_stores_of_narrow {inputText outputText : Bytes} {idx numChars : Int}
    {loopText : Option Bytes} {onTextFits : OnTextFits} (hnum : 0 ≤ numChars)
    (hnarrow : ∀ c ∈ scrollCycle g inputText numChars loopText onTextFits, c.length ≤ 5)
    (h : scrollText g inputText idx numChars loopText onTextFits = .ok outputText) :
    (outputText.length : Int) ≤ numChars * 5 := by
  by_cases hcycle : scrollCycle g inputText numChars loopText onTextFits = []
  · rw [scrollText_eq_copyFrom hnum, if_pos hcycle] at h
    cases h
  · rw [scrollText_eq_window idx hnum hcycle] at h
    obtain rfl := Except.ok.inj h
    have hwidths : ∀ n ∈ (Window.window (scrollCycle g inputText numChars loopText onTextFits)
        (scrollStart g inputText idx numChars onTextFits) numChars.toNat).map List.length, n ≤ 5 :=
      List.forall_mem_map.mpr (fun c hc => hnarrow c (Window.mem_of_mem_window hc))
    have hsum := List.sum_le_card_nsmul _ 5 hwidths
    rw [List.length_map, Window.window_length hcycle, smul_eq_mul] at hsum
    rw [List.length_flatten]
    omega

end Slstatus
