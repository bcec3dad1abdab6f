import Slstatus.Conf
import Slstatus.Grapheme
import Slstatus.Lib.WhileLoop
import Slstatus.Lib.Window

/-! `scroll_text` of mpd.c computes a cyclic window on the clusters of a text and of a
separator. -/

namespace Slstatus

variable (g : GraphemeBreak)

/-- `text_iter`, which of the two texts it is in, the clusters copied so far and the
bytes stored so far. -/
structure CopyState where
  textIter : Bytes
  s : Bool
  c : Nat
  dest : Bytes

def copyBody (inputText loopText : Bytes) (numChars : Int) (st : CopyState) : CopyState ⊕ Bytes :=
  if (st.c : Int) < numChars then
    let utf8charlen := g.next st.textIter
    if utf8charlen = 0 then
      .inl { st with textIter := if st.s then inputText else loopText, s := !st.s }
    else
      .inl { st with
        textIter := st.textIter.drop utf8charlen
        c := st.c + 1
        dest := st.dest ++ st.textIter.take utf8charlen }
  else .inr st.dest

def skipAhead : Nat → Bytes → Bytes
  | 0, textIter => textIter
  | idx + 1, textIter => skipAhead idx (textIter.drop (g.next textIter))

def scrollText (inputText : Bytes) (idx numChars : Int) (loopText : Option Bytes)
    (onTextFits : OnTextFits) : Except Fault Bytes :=
  if numChars + 1 < 1 then .error .badArraySize
  else
    let inputChars : Int := utf8strlen g (some inputText)
    let loopText :=
      match loopText with
      | none => List.replicate numChars.toNat 32
      | some loopText =>
        if inputChars ≤ numChars ∧ onTextFits ≠ .forceScroll then List.replicate numChars.toNat 32
        else loopText
    let idx := if inputChars ≤ numChars ∧ onTextFits = .noScroll then 0 else idx
    let loopChars : Int := utf8strlen g (some loopText)
    if inputChars + loopChars = 0 then .error .divByZero
    else
      let idx := idx.tmod (inputChars + loopChars)
      let idx := if idx < 0 then idx + (inputChars + loopChars) else idx
      let s := decide (inputChars ≤ idx)
      let textIter :=
        if s then skipAhead g (idx - inputChars).toNat loopText else skipAhead g idx.toNat inputText
      match WhileLoop.run (copyBody g inputText loopText numChars) (3 * numChars.toNat + 1)
        ⟨textIter, s, 0, []⟩ with
      | none => .error .endlessLoop
      | some outputText => .ok outputText

def separator (inputText : Bytes) (numChars : Int) (loopText : Option Bytes)
    (onTextFits : OnTextFits) : Bytes :=
  match loopText with
  | none => List.replicate numChars.toNat 32
  | some loopText =>
    if (g.seg inputText).length ≤ numChars ∧ onTextFits ≠ .forceScroll then
      List.replicate numChars.toNat 32
    else loopText

def scrollCycle (inputText : Bytes) (numChars : Int) (loopText : Option Bytes)
    (onTextFits : OnTextFits) : List Bytes :=
  g.seg inputText ++ g.seg (separator g inputText numChars loopText onTextFits)

def scrollStart (inputText : Bytes) (idx numChars : Int) (onTextFits : OnTextFits) : Int :=
  if (g.seg inputText).length ≤ numChars ∧ onTextFits = .noScroll then 0 else idx

section Copy

variable {g} {inputText loopText : Bytes} {numChars : Int} {st : CopyState}

variable (g inputText loopText) in
/-- The cursor stands before position `p` of the clusters of the two texts. -/
def AtPosition (st : CopyState) (p : Nat) : Prop :=
  p ≤ (g.seg inputText ++ g.seg loopText).length ∧
  (g.seg inputText ++ g.seg loopText).drop p =
    g.seg st.textIter ++ if st.s then [] else g.seg loopText

theorem seg_skipAhead (k : Nat) (s : Bytes) : g.seg (skipAhead g k s) = (g.seg s).drop k := by
  induction k generalizing s with
  | zero => rfl
  | succ k ih =>
    rw [skipAhead, ih]
    by_cases hs : s = []
    · simp [hs, seg_nil]
    · rw [seg_of_ne_nil hs, List.drop_succ_cons]

theorem copyBody_done (h : ¬ (st.c : Int) < numChars) :
    copyBody g inputText loopText numChars st = .inr st.dest := by
  simp only [copyBody, if_neg h]

theorem copyBody_swap (h : (st.c : Int) < numChars) (hend : st.textIter = []) :
    copyBody g inputText loopText numChars st =
      .inl { st with textIter := if st.s then inputText else loopText, s := !st.s } := by
  simp only [copyBody, if_pos h, hend, g.next_nil, if_true]

theorem copyBody_copy (h : (st.c : Int) < numChars) (hne : st.textIter ≠ []) :
    copyBody g inputText loopText numChars st =
      .inl { st with
        textIter := st.textIter.drop (g.next st.textIter)
        c := st.c + 1
        dest := st.dest ++ st.textIter.take (g.next st.textIter) } := by
  simp only [copyBody, if_pos h, if_neg (fun hz => hne (next_eq_zero.mp hz))]

theorem atPosition_swap {p : Nat} (hat : AtPosition g inputText loopText st p)
    (hend : st.textIter = []) :
    ∃ p' : Nat, AtPosition g inputText loopText
        { st with textIter := if st.s then inputText else loopText, s := !st.s } p' ∧
      ∀ m, Window.window (g.seg inputText ++ g.seg loopText) p' m =
        Window.window (g.seg inputText ++ g.seg loopText) p m := by
  obtain ⟨hle, hdrop⟩ := hat
  cases hs : st.s with
  | true =>
    rw [hend, hs, seg_nil, if_pos rfl, List.append_nil, List.drop_eq_nil_iff] at hdrop
    refine ⟨0, ⟨Nat.zero_le _, rfl⟩, fun m => ?_⟩
    rw [show p = (g.seg inputText ++ g.seg loopText).length by omega,
      ← Window.window_add_length ((0 : Nat) : Int), Nat.cast_zero, Int.zero_add]
  | false =>
    rw [hend, hs, seg_nil, if_neg Bool.false_ne_true, List.nil_append] at hdrop
    exact ⟨p, ⟨hle, by simp [hdrop]⟩, fun m => rfl⟩

theorem atPosition_copy {p : Nat} (hat : AtPosition g inputText loopText st p)
    (hne : st.textIter ≠ []) :
    AtPosition g inputText loopText
      { st with
        textIter := st.textIter.drop (g.next st.textIter)
        c := st.c + 1
        dest := st.dest ++ st.textIter.take (g.next st.textIter) } (p + 1) ∧
    Window.entry (g.seg inputText ++ g.seg loopText) p =
      some (st.textIter.take (g.next st.textIter)) := by
  obtain ⟨hle, hdrop⟩ := hat
  rw [seg_of_ne_nil hne, List.cons_append] at hdrop
  have hlt : p < (g.seg inputText ++ g.seg loopText).length := by
    by_contra h
    rw [List.drop_eq_nil_of_le (Nat.le_of_not_lt h)] at hdrop
    cases hdrop
  refine ⟨⟨hlt, ?_⟩, ?_⟩
  · rw [← List.tail_drop, hdrop, List.tail_cons]
  · rw [Window.entry_of_lt hlt, ← List.head?_drop, hdrop, List.head?_cons]

theorem other_ne_nil (hcycle : g.seg inputText ++ g.seg loopText ≠ []) {b : Bool}
    (h : (if b then inputText else loopText) = []) :
    (if !b then inputText else loopText) ≠ [] := by
  intro h'
  have hboth : inputText = [] ∧ loopText = [] := by
    cases b with
    | true => exact ⟨h, h'⟩
    | false => exact ⟨h', h⟩
  rw [hboth.1, hboth.2, seg_nil] at hcycle
  exact hcycle rfl

theorem copyLoop_eq_window (hcycle : g.seg inputText ++ g.seg loopText ≠ []) (m : Nat) {p fuel : Nat}
    (hat : AtPosition g inputText loopText st p) (hc : (st.c : Int) + m = numChars)
    (hfuel : 3 * m + 1 ≤ fuel) :
    WhileLoop.run (copyBody g inputText loopText numChars) fuel st =
      some (st.dest ++ (Window.window (g.seg inputText ++ g.seg loopText) p m).flatten) := by
  induction m generalizing st p fuel with
  | zero =>
    obtain ⟨fuel, rfl⟩ : ∃ k, fuel = k + 1 := ⟨fuel - 1, by omega⟩
    rw [WhileLoop.run_exit (copyBody_done (by omega)), Window.window_zero, List.flatten_nil,
      List.append_nil]
  | succ m ih =>
    have hcopy : ∀ {st p fuel}, st.textIter ≠ [] → AtPosition g inputText loopText st p →
        (st.c : Int) + (m + 1 : Nat) = numChars → 3 * m + 2 ≤ fuel →
        WhileLoop.run (copyBody g inputText loopText numChars) fuel st = some (st.dest ++
          (Window.window (g.seg inputText ++ g.seg loopText) p (m + 1)).flatten) := by
      intro st p fuel hne hat hc hfuel
      obtain ⟨fuel, rfl⟩ : ∃ k, fuel = k + 1 := ⟨fuel - 1, by omega⟩
      obtain ⟨hat', hentry⟩ := atPosition_copy hat hne
      have hgo : (st.c : Int) < numChars := by omega
      have hc' : ((st.c + 1 : Nat) : Int) + m = numChars := by omega
      have hrest := ih hat' hc' (show 3 * m + 1 ≤ fuel by omega)
      rw [WhileLoop.run_next (copyBody_copy hgo hne), hrest, Window.window_succ, hentry]
      simp
    by_cases hend : st.textIter = []
    · obtain ⟨fuel, rfl⟩ : ∃ k, fuel = k + 2 := ⟨fuel - 2, by omega⟩
      obtain ⟨p', hat', hwin⟩ := atPosition_swap hat hend
      rw [WhileLoop.run_next (copyBody_swap (by omega) hend), ← hwin]
      by_cases hend' : (if st.s then inputText else loopText) = []
      · obtain ⟨p'', hat'', hwin'⟩ := atPosition_swap hat' hend'
        rw [WhileLoop.run_next (copyBody_swap (by simp only; omega) hend'), ← hwin']
        exact hcopy (other_ne_nil hcycle hend') hat'' hc (by omega)
      · exact hcopy hend' hat' hc (by omega)
    · exact hcopy hend hat hc (by omega)

end Copy

theorem wrap_eq_emod {x n : Int} (hn : 0 < n) :
    (if x.tmod n < 0 then x.tmod n + n else x.tmod n) = x % n := by
  have hlt := Int.tmod_lt_of_pos x hn
  have hgt := Int.lt_tmod_of_pos x hn
  have hmod : x % n = x.tmod n % n := by
    conv_lhs => rw [← Int.mul_tdiv_add_tmod x n]
    rw [Int.mul_add_emod_self_left]
  rw [hmod]
  split_ifs with hneg
  · rw [← Int.add_emod_right, Int.emod_eq_of_lt (by omega) (by omega)]
  · rw [Int.emod_eq_of_lt (by omega) hlt]

section Scroll

variable {g} {inputText : Bytes} {idx numChars : Int} {loopText : Option Bytes}
  {onTextFits : OnTextFits}

theorem atPosition_start {input loop : Bytes} {k : Int} (hk : 0 ≤ k)
    (hlt : k < (g.seg input ++ g.seg loop).length) :
    AtPosition g input loop
      ⟨if decide ((g.seg input).length ≤ k) then skipAhead g (k - (g.seg input).length).toNat loop
        else skipAhead g k.toNat input, decide ((g.seg input).length ≤ k), 0, []⟩ k.toNat := by
  refine ⟨by omega, ?_⟩
  by_cases hs : ((g.seg input).length : Int) ≤ k
  · have hlen : (g.seg input).length ≤ k.toNat := by omega
    have hrest : (k - (g.seg input).length).toNat = k.toNat - (g.seg input).length := by omega
    simp only [hs, decide_true, if_true, seg_skipAhead, List.append_nil, hrest]
    rw [List.drop_append, List.drop_eq_nil_of_le hlen, List.nil_append]
  · have hlen : k.toNat ≤ (g.seg input).length := by omega
    simp only [hs, decide_false, if_false, Bool.false_eq_true, seg_skipAhead]
    rw [List.drop_append_of_le_length hlen]

variable (g inputText idx numChars loopText onTextFits) in
def copyFrom (w : Int) : Except Fault Bytes :=
  let L := separator g inputText numChars loopText onTextFits
  let s := decide (((g.seg inputText).length : Int) ≤ w)
  let textIter :=
    if s then skipAhead g (w - (g.seg inputText).length).toNat L else skipAhead g w.toNat inputText
  match WhileLoop.run (copyBody g inputText L numChars) (3 * numChars.toNat + 1)
    ⟨textIter, s, 0, []⟩ with
  | none => .error .endlessLoop
  | some outputText => .ok outputText

theorem scrollText_eq_copyFrom (hnum : 0 ≤ numChars) :
    scrollText g inputText idx numChars loopText onTextFits =
      if scrollCycle g inputText numChars loopText onTextFits = [] then .error .divByZero
      else copyFrom g inputText numChars loopText onTextFits
        (scrollStart g inputText idx numChars onTextFits %
          (scrollCycle g inputText numChars loopText onTextFits).length) := by
  have hsize : ¬ numChars + 1 < 1 := by omega
  have hlen : ((g.seg inputText).length +
      (g.seg (separator g inputText numChars loopText onTextFits)).length : Int) =
        (scrollCycle g inputText numChars loopText onTextFits).length := by
    rw [scrollCycle, List.length_append, Nat.cast_add]
  by_cases hcycle : scrollCycle g inputText numChars loopText onTextFits = []
  · rw [if_pos hcycle]
    rw [hcycle, List.length_nil, Nat.cast_zero] at hlen
    simp only [scrollText, utf8strlen_eq, if_neg hsize]
    exact if_pos hlen
  · have hpos := Window.length_pos hcycle
    rw [if_neg hcycle, ← wrap_eq_emod hpos, ← hlen]
    simp only [scrollText, utf8strlen_eq, if_neg hsize]
    exact if_neg (fun h => ne_of_gt hpos (hlen.symm.trans h))

variable (idx) in
theorem scrollText_eq_window (hnum : 0 ≤ numChars)
    (hcycle : scrollCycle g inputText numChars loopText onTextFits ≠ []) :
    scrollText g inputText idx numChars loopText onTextFits =
      .ok (Window.window (scrollCycle g inputText numChars loopText onTextFits)
        (scrollStart g inputText idx numChars onTextFits) numChars.toNat).flatten := by
  have hpos := Window.length_pos hcycle
  have hnonneg := Int.emod_nonneg (scrollStart g inputText idx numChars onTextFits) (ne_of_gt hpos)
  have hat := atPosition_start hnonneg (Int.emod_lt_of_pos _ hpos)
  have hc : ((0 : Nat) : Int) + numChars.toNat = numChars := by omega
  have hrun := copyLoop_eq_window hcycle numChars.toNat hat hc le_rfl
  rw [scrollText_eq_copyFrom hnum, if_neg hcycle]
  simp only [copyFrom, hrun, List.nil_append]
  rw [Int.toNat_of_nonneg hnonneg, ← scrollCycle, Window.window_mod]

theorem scrollStart_of_scrolls (h : ¬ ((g.seg inputText).length ≤ numChars ∧ onTextFits = .noScroll)) :
    scrollStart g inputText idx numChars onTextFits = idx := if_neg h

variable (loopText) in
theorem separator_of_fits (hfits : (g.seg inputText).length ≤ numChars)
    (hforce : onTextFits ≠ .forceScroll) :
    separator g inputText numChars loopText onTextFits = List.replicate numChars.toNat 32 := by
  cases loopText with
  | none => rfl
  | some loop => exact if_pos ⟨hfits, hforce⟩

theorem flatten_spaces (n : Nat) :
    (List.replicate n ([32] : Bytes)).flatten = List.replicate n 32 := by
  induction n with
  | zero => rfl
  | succ n ih => rw [List.replicate_succ, List.flatten_cons, ih, List.replicate_succ,
      List.singleton_append]

theorem window_of_fits (hfits : (g.seg inputText).length ≤ numChars) :
    (Window.window (scrollCycle g inputText numChars loopText .noScroll) 0 numChars.toNat).flatten =
      inputText ++ List.replicate (numChars.toNat - (g.seg inputText).length) 32 := by
  have hspaces := separator_of_fits loopText hfits (show OnTextFits.noScroll ≠ .forceScroll by decide)
  have hlen : (g.seg inputText).length ≤ numChars.toNat := by omega
  have hcycle : scrollCycle g inputText numChars loopText .noScroll =
      g.seg inputText ++ List.replicate numChars.toNat [32] := by
    rw [scrollCycle, hspaces, seg_spaces]
  have hlong : numChars.toNat ≤ (scrollCycle g inputText numChars loopText .noScroll).length := by
    simp [hcycle]
  rw [Window.window_eq_take hlong, hcycle, List.take_append, List.take_of_length_le hlen,
    List.take_replicate, List.flatten_append, seg_flatten, Nat.min_eq_left (Nat.sub_le _ _),
    flatten_spaces]

end Scroll

/-- The text is the window of `numChars` clusters from `idx` on. It comes back after
one cycle, moves with `idx` unless it fits and stays, and then it is shown whole. -/
theorem scrollText_cyclic (inputText : Bytes) (idx numChars : Int) (loopText : Option Bytes)
    (onTextFits : OnTextFits) (hnum : 0 ≤ numChars)
    (hcycle : scrollCycle g inputText numChars loopText onTextFits ≠ []) :
    let cycle := scrollCycle g inputText numChars loopText onTextFits
    let stays := (g.seg inputText).length ≤ numChars ∧ onTextFits = .noScroll
    scrollText g inputText idx numChars loopText onTextFits =
      .ok (Window.window cycle (if stays then 0 else idx) numChars.toNat).flatten ∧
    scrollText g inputText (idx + cycle.length) numChars loopText onTextFits =
      scrollText g inputText idx numChars loopText onTextFits ∧
    (¬ stays → scrollText g inputText (idx + 1) numChars loopText onTextFits =
      .ok (Window.window cycle idx (numChars.toNat + 1)).tail.flatten) ∧
    (stays → scrollText g inputText idx numChars loopText onTextFits =
      .ok (inputText ++ List.replicate (numChars.toNat - (g.seg inputText).length) 32)) := by
  intro cycle stays
  have hwindow := fun idx => scrollText_eq_window idx hnum hcycle
  refine ⟨hwindow idx, ?_, ?_, ?_⟩
  · rw [hwindow, hwindow]
    by_cases hstays : stays
    · rw [scrollStart, scrollStart, if_pos hstays, if_pos hstays]
    · simp only [scrollStart_of_scrolls hstays]
      rw [Window.window_add_length]
  · intro hscrolls
    rw [hwindow, scrollStart_of_scrolls hscrolls, Window.window_tail hcycle]
  · intro hex
    obtain ⟨hfits, rfl⟩ := hex
    rw [hwindow, scrollStart, if_pos ⟨hfits, rfl⟩, window_of_fits hfits]

theorem scrollText_cyclic_accent :
    let text : Bytes := [110, 101, 0xCC, 0x81, 33]
    scrollText acuteBreak text (-1) 3 (some [32]) .forceScroll = .ok [32, 110, 101, 0xCC, 0x81] ∧
    scrollText acuteBreak text 3 3 (some [32]) .forceScroll =
      scrollText acuteBreak text (-1) 3 (some [32]) .forceScroll := by
  have h := scrollText_cyclic acuteBreak [110, 101, 0xCC, 0x81, 33] (-1) 3 (some [32]) .forceScroll
    (by decide) (by decide)
  exact ⟨h.1, h.2.1⟩

end Slstatus
