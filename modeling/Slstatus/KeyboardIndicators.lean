import Slstatus.Conf

/-! `keyboard_indicators` against the comment that describes its format. -/

namespace Slstatus

def toUpper (c : UInt8) : UInt8 := if 97 ≤ c ∧ c ≤ 122 then c - 32 else c

/-- The loop from one byte on. Behind the last byte that it looks at there is no '?'. -/
def indicatorLoop (ledMask : UInt64) : Bytes → Bytes
  | [] => []
  | c :: s =>
    let key := toLower c
    if key ≠ 99 ∧ key ≠ 110 then indicatorLoop ledMask s
    else
      let togglecase := s.head? ≠ some 63
      let isset := ledMask &&& (if key = 110 then 2 else 1) ≠ 0
      if togglecase then (if isset then toUpper key else key) :: indicatorLoop ledMask s
      else if isset then c :: indicatorLoop ledMask s
      else indicatorLoop ledMask s

/-- `ledMask` is `none` where the display cannot be opened. -/
def keyboardIndicators (ledMask : Option UInt64) (fmt : Option Bytes) :
    Except Fault (Option Bytes) :=
  match ledMask, fmt with
  | none, _ => .ok none
  | some _, none => .error .nullPointer
  | some ledMask, some fmt => .ok (some (indicatorLoop ledMask (fmt.take 4)))

inductive Lock
  | caps | num
  deriving DecidableEq

def Lock.letter (upper : Bool) : Lock → UInt8
  | .caps => if upper then 67 else 99
  | .num => if upper then 78 else 110

def Lock.on (ledMask : UInt64) : Lock → Bool
  | .caps => ledMask &&& 1 ≠ 0
  | .num => ledMask &&& 2 ≠ 0

structure Indicator where
  lock : Lock
  upper : Bool
  optional : Bool
  deriving DecidableEq

namespace Indicator

def spelling (i : Indicator) : Bytes := i.lock.letter i.upper :: if i.optional then [63] else []

/-- If followed by '?', the letter with case preserved where the lock is on. Otherwise always the
letter, uppercase where the lock is on. -/
def shown (on : Lock → Bool) (i : Indicator) : Bytes :=
  if i.optional then (if on i.lock then [i.lock.letter i.upper] else [])
  else [i.lock.letter (on i.lock)]

end Indicator

def spell (is : List Indicator) : Bytes := is.flatMap Indicator.spelling

def shownBy (on : Lock → Bool) (is : List Indicator) : Bytes := is.flatMap (Indicator.shown on)

section Loop

variable {m : UInt64} {i : Indicator} {is : List Indicator} {s : Bytes} {n : Nat}

theorem indicatorLoop_mark (m : UInt64) (s : Bytes) :
    indicatorLoop m (63 :: s) = indicatorLoop m s := by
  rw [indicatorLoop]
  exact if_pos (by decide)

theorem indicatorLoop_plain (lock : Lock) (upper : Bool) (h : s.head? ≠ some 63) :
    indicatorLoop m (lock.letter upper :: s) = lock.letter (lock.on m) :: indicatorLoop m s := by
  cases lock <;> cases upper <;>
    simp [indicatorLoop, Lock.letter, Lock.on, toLower, toUpper, h]

theorem indicatorLoop_optional (lock : Lock) (upper : Bool) :
    indicatorLoop m (lock.letter upper :: 63 :: s) =
      (if lock.on m then [lock.letter upper] else []) ++ indicatorLoop m s := by
  cases lock <;> cases upper <;>
    simp [indicatorLoop, Lock.letter, Lock.on, toLower] <;>
    split_ifs <;> rfl

theorem indicatorLoop_spelling (i : Indicator) (h : s.head? ≠ some 63) :
    indicatorLoop m (i.spelling ++ s) = i.shown (Lock.on m) ++ indicatorLoop m s := by
  obtain ⟨lock, upper, optional⟩ := i
  cases optional with
  | false => exact indicatorLoop_plain lock upper h
  | true => exact indicatorLoop_optional lock upper

theorem head_spell (h : s.head? ≠ some 63) : (spell is ++ s).head? ≠ some 63 := by
  cases is with
  | nil => exact h
  | cons i is =>
    obtain ⟨lock, upper, optional⟩ := i
    cases lock <;> cases upper <;> simp [spell, Indicator.spelling, Lock.letter]

theorem indicatorLoop_spell (h : s.head? ≠ some 63) :
    indicatorLoop m (spell is ++ s) = shownBy (Lock.on m) is ++ indicatorLoop m s := by
  induction is with
  | nil => rfl
  | cons i is ih =>
    have hsplit : spell (i :: is) ++ s = i.spelling ++ (spell is ++ s) := by simp [spell]
    rw [hsplit, indicatorLoop_spelling i (head_spell h), ih, ← List.append_assoc]
    rfl

/-- Where a cut at `n` bytes falls: between two indicators, or before the '?' of one. -/
theorem spell_cut (h : n < (spell is).length) :
    ∃ pre i post, is = pre ++ i :: post ∧
      ((spell pre).length = n ∨ (spell pre).length + 1 = n ∧ i.optional = true) := by
  induction is generalizing n with
  | nil => exact absurd h (Nat.not_lt_zero n)
  | cons i is ih =>
    have hlen : (spell (i :: is)).length = i.spelling.length + (spell is).length := by simp [spell]
    by_cases hfirst : i.spelling.length ≤ n
    · obtain ⟨pre, j, post, rfl, hcut⟩ := ih (n := n - i.spelling.length) (by omega)
      refine ⟨i :: pre, j, post, rfl, ?_⟩
      have hpre : (spell (i :: pre)).length = i.spelling.length + (spell pre).length := by
        simp [spell]
      rcases hcut with hcut | ⟨hcut, hoptional⟩
      · exact .inl (by omega)
      · exact .inr ⟨by omega, hoptional⟩
    · refine ⟨[], i, is, rfl, ?_⟩
      obtain ⟨lock, upper, optional⟩ := i
      cases optional with
      | false =>
        have hn : n < 1 := Nat.not_le.mp hfirst
        exact .inl (show 0 = n by omega)
      | true =>
        have hn : n < 2 := Nat.not_le.mp hfirst
        by_cases hzero : n = 0
        · exact .inl hzero.symm
        · exact .inr ⟨show 0 + 1 = n by omega, rfl⟩

theorem shownBy_split (on : Lock → Bool) (pre : List Indicator) (i : Indicator)
    (post : List Indicator) :
    shownBy on (pre ++ i :: post) = shownBy on pre ++ (i.shown on ++ shownBy on post) := by
  simp [shownBy]

theorem shownBy_all (h : ∀ lock, Lock.on m lock = true) (is : List Indicator) :
    (shownBy (Lock.on m) is).length = is.length := by
  induction is with
  | nil => rfl
  | cons i is ih =>
    have hone : (i.shown (Lock.on m)).length = 1 := by
      simp only [Indicator.shown, h, if_true]
      split_ifs <;> rfl
    have hsplit : shownBy (Lock.on m) (i :: is) = i.shown (Lock.on m) ++ shownBy (Lock.on m) is := rfl
    rw [hsplit, List.length_append, hone, ih, List.length_cons, Nat.add_comm]

end Loop

section Cut

variable {pre post : List Indicator} {i : Indicator}

theorem locks_on (lock : Lock) : lock.on 3 = true := by cases lock <;> decide

theorem locks_off (lock : Lock) : lock.on 0 = false := by cases lock <;> decide

/-- With both locks on the indicator behind the cut is missing. -/
theorem cut_loses (hcut : (spell pre).length = 4) :
    indicatorLoop 3 ((spell (pre ++ i :: post)).take 4) ≠
      shownBy (Lock.on 3) (pre ++ i :: post) := by
  intro h
  have htake : (spell (pre ++ i :: post)).take 4 = spell pre ++ [] := by
    have hsplit : spell (pre ++ i :: post) = spell pre ++ spell (i :: post) := by simp [spell]
    rw [hsplit, ← hcut, List.take_left, List.append_nil]
  rw [htake, indicatorLoop_spell (by simp)] at h
  have hlen := congrArg List.length h
  rw [List.length_append, shownBy_all locks_on, shownBy_all locks_on, List.length_append] at hlen
  simp [indicatorLoop] at hlen

/-- Without its '?' the last indicator is shown while its lock is off. If others follow it, they
are missing while both locks are on. -/
theorem cut_unmarks (hcut : (spell pre).length + 1 = 4) (hoptional : i.optional = true) :
    ∃ m, indicatorLoop m ((spell (pre ++ i :: post)).take 4) ≠
      shownBy (Lock.on m) (pre ++ i :: post) := by
  have htake : (spell (pre ++ i :: post)).take 4 = spell pre ++ [i.lock.letter i.upper] := by
    have hsplit : spell (pre ++ i :: post) = spell pre ++ (i.spelling ++ spell post) := by
      simp [spell]
    rw [hsplit, ← hcut, List.take_length_add_append, Indicator.spelling, hoptional]
    rfl
  have hletter : [i.lock.letter i.upper].head? ≠ some 63 := by
    cases i.lock <;> cases i.upper <;> decide
  have hplain : ∀ m, indicatorLoop m ((spell (pre ++ i :: post)).take 4) =
      shownBy (Lock.on m) pre ++ [i.lock.letter (i.lock.on m)] := by
    intro m
    rw [htake, indicatorLoop_spell hletter, indicatorLoop_plain _ _ (by simp)]
    rfl
  cases post with
  | nil =>
    refine ⟨0, fun h => ?_⟩
    rw [hplain, shownBy_split] at h
    have hlen := congrArg List.length (List.append_cancel_left h)
    simp [Indicator.shown, hoptional, locks_off, shownBy] at hlen
  | cons j post =>
    refine ⟨3, fun h => ?_⟩
    rw [hplain] at h
    have hlen := congrArg List.length h
    rw [List.length_append, shownBy_all locks_on, shownBy_all locks_on, List.length_append] at hlen
    simp at hlen

end Cut

/-- The comment holds exactly of the formats of at most four bytes. A longer one loses an
indicator, or the '?' of the last one that is left. -/
theorem keyboardIndicators_iff (is : List Indicator) :
    (∀ ledMask, keyboardIndicators (some ledMask) (some (spell is)) =
      .ok (some (shownBy (Lock.on ledMask) is))) ↔ (spell is).length ≤ 4 := by
  constructor
  · intro h
    by_contra hlong
    have hloop : ∀ m, indicatorLoop m ((spell is).take 4) = shownBy (Lock.on m) is := by
      intro m
      exact Option.some.inj (Except.ok.inj (h m))
    obtain ⟨pre, i, post, rfl, hcut | ⟨hcut, hoptional⟩⟩ := spell_cut (Nat.not_le.mp hlong)
    · exact cut_loses hcut (hloop 3)
    · obtain ⟨m, hm⟩ := cut_unmarks hcut hoptional
      exact hm (hloop m)
  · intro h m
    have hloop : indicatorLoop m (spell is ++ []) =
        shownBy (Lock.on m) is ++ indicatorLoop m [] := indicatorLoop_spell (by simp)
    rw [List.append_nil] at hloop
    rw [keyboardIndicators, List.take_of_length_le h, hloop]
    simp [indicatorLoop]

end Slstatus
