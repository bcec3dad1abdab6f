import Slstatus.Basic

/-! libgrapheme as mpd.c uses it. The function that finds the first cluster of a text
is a parameter; iterating it splits a text into clusters. -/

namespace Slstatus

/-- `grapheme_next_character_break_utf8(text, SIZE_MAX)`: the length in bytes of the
first cluster of the text. A space before spaces, or at the end, is its own cluster. -/
structure GraphemeBreak where
  next : Bytes → Nat
  next_nil : next [] = 0
  next_pos : ∀ s, s ≠ [] → 0 < next s
  next_le : ∀ s, next s ≤ s.length
  next_spaces : ∀ n, next (List.replicate (n + 1) 32) = 1

variable (g : GraphemeBreak)

def countLoop : Nat → Bytes → Nat → Nat
  | 0, _, count => count
  | n + 1, text, count =>
    let utf8charlen := g.next text
    if utf8charlen = 0 then count else countLoop n (text.drop utf8charlen) (count + 1)

def utf8strlen : Option Bytes → Nat
  | none => 0
  | some text => countLoop g text.length text 0

def GraphemeBreak.split : Nat → Bytes → List Bytes
  | 0, _ => []
  | n + 1, s => if g.next s = 0 then [] else s.take (g.next s) :: split n (s.drop (g.next s))

def GraphemeBreak.seg (s : Bytes) : List Bytes := g.split s.length s

section Clusters

variable {g}

theorem next_eq_zero {s : Bytes} : g.next s = 0 ↔ s = [] := by
  constructor
  · intro h
    by_contra hs
    have := g.next_pos s hs
    omega
  · intro he
    subst he
    exact g.next_nil

theorem length_drop_next_lt {s : Bytes} (hs : s ≠ []) :
    (s.drop (g.next s)).length < s.length := by
  have hpos := g.next_pos s hs
  have hlen := List.length_pos_iff.mpr hs
  rw [List.length_drop]
  omega

theorem split_eq_seg {n : Nat} {s : Bytes} (h : s.length ≤ n) : g.split n s = g.seg s := by
  have hstable : ∀ n m (s : Bytes), s.length ≤ n → s.length ≤ m → g.split n s = g.split m s := by
    intro n
    induction n with
    | zero =>
      intro m s hn _
      obtain rfl : s = [] := List.length_eq_zero_iff.mp (by omega)
      cases m with
      | zero => rfl
      | succ m => simp only [GraphemeBreak.split, g.next_nil, if_true]
    | succ n ih =>
      intro m s hn hm
      by_cases hs : s = []
      · subst hs
        cases m with
        | zero => simp only [GraphemeBreak.split, g.next_nil, if_true]
        | succ m => simp only [GraphemeBreak.split, g.next_nil, if_true]
      · have hlt := length_drop_next_lt (g := g) hs
        cases m with
        | zero => exact absurd (List.length_eq_zero_iff.mp (by omega)) hs
        | succ m =>
          have hrest := ih m (s.drop (g.next s)) (by omega) (by omega)
          simp only [GraphemeBreak.split, hrest]
  exact hstable n s.length s h (Nat.le_refl _)

theorem seg_nil : g.seg [] = [] := rfl

theorem seg_of_ne_nil {s : Bytes} (hs : s ≠ []) :
    g.seg s = s.take (g.next s) :: g.seg (s.drop (g.next s)) := by
  have hlt := length_drop_next_lt (g := g) hs
  obtain ⟨n, hn⟩ : ∃ n, s.length = n + 1 := ⟨s.length - 1, by omega⟩
  rw [GraphemeBreak.seg, hn, GraphemeBreak.split, if_neg (fun h => hs (next_eq_zero.mp h)),
    split_eq_seg (by omega)]

theorem seg_eq_nil {s : Bytes} : g.seg s = [] ↔ s = [] := by
  constructor
  · intro h
    by_contra hs
    rw [seg_of_ne_nil hs] at h
    cases h
  · intro he
    subst he
    exact seg_nil

theorem seg_flatten (s : Bytes) : (g.seg s).flatten = s := by
  induction hn : s.length using Nat.strongRecOn generalizing s with
  | _ n ih =>
    by_cases hs : s = []
    · rw [hs, seg_nil, List.flatten_nil]
    · rw [seg_of_ne_nil hs, List.flatten_cons,
        ih _ (hn ▸ length_drop_next_lt hs) _ rfl, List.take_append_drop]

theorem ne_nil_of_mem_seg {s c : Bytes} (hc : c ∈ g.seg s) : c ≠ [] := by
  induction hn : s.length using Nat.strongRecOn generalizing s with
  | _ n ih =>
    by_cases hs : s = []
    · rw [hs, seg_nil] at hc
      cases hc
    · rw [seg_of_ne_nil hs] at hc
      rcases List.mem_cons.mp hc with rfl | hrest
      · simp [hs, mt next_eq_zero.mp hs]
      · exact ih _ (hn ▸ length_drop_next_lt hs) hrest rfl

theorem seg_spaces (n : Nat) : g.seg (List.replicate n 32) = List.replicate n [32] := by
  induction n with
  | zero => rfl
  | succ n ih =>
    rw [seg_of_ne_nil (by simp), g.next_spaces, List.replicate_succ, List.take_succ_cons,
      List.take_zero, List.drop_succ_cons, List.drop_zero, ih]
    rfl

theorem utf8strlen_eq (s : Bytes) : utf8strlen g (some s) = (g.seg s).length := by
  have hcount : ∀ n (s : Bytes) count, s.length ≤ n →
      countLoop g n s count = count + (g.seg s).length := by
    intro n
    induction n with
    | zero =>
      intro s count hn
      obtain rfl : s = [] := List.length_eq_zero_iff.mp (by omega)
      rfl
    | succ n ih =>
      intro s count hn
      by_cases hs : s = []
      · simp [hs, countLoop, g.next_nil, seg_nil]
      · have hlt := length_drop_next_lt (g := g) hs
        rw [countLoop, if_neg (fun h => hs (next_eq_zero.mp h)), ih _ _ (by omega),
          seg_of_ne_nil hs, List.length_cons]
        omega
  rw [utf8strlen, hcount s.length s 0 (Nat.le_refl _), Nat.zero_add]

end Clusters

def accentsLength : Bytes → Nat
  | 0xCC :: 0x81 :: rest => accentsLength rest + 2
  | _ => 0

theorem accentsLength_le (s : Bytes) : accentsLength s ≤ s.length := by
  induction s using accentsLength.induct with
  | case1 rest ih =>
    simp only [accentsLength, List.length_cons]
    omega
  | case2 s h => simp [accentsLength]

/-- The clusters of texts in ASCII whose letters can carry acute accents. -/
def acuteBreak : GraphemeBreak where
  next
    | [] => 0
    | _ :: rest => accentsLength rest + 1
  next_nil := rfl
  next_pos s hs := by
    cases s with
    | nil => exact absurd rfl hs
    | cons c rest => exact Nat.succ_pos _
  next_le s := by
    cases s with
    | nil => exact Nat.le_refl _
    | cons c rest => exact Nat.succ_le_succ (accentsLength_le rest)
  next_spaces n := by cases n <;> rfl

end Slstatus
