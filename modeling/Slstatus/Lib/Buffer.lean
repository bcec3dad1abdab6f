import Mathlib.Data.List.Basic

/-! Byte arrays of a fixed size and the C strings they hold. A string stored in an
array ends at the first NUL; an array without one holds no string. -/

abbrev Buffer (n : Nat) := { b : List UInt8 // b.length = n }

namespace Buffer

variable {n : Nat}

def zeros (n : Nat) : Buffer n := ⟨List.replicate n 0, List.length_replicate⟩

def write (w : List UInt8) (b : Buffer n) : Buffer n :=
  ⟨(w ++ b.1.drop w.length).take n, by
    have := b.2
    simp only [List.length_take, List.length_append, List.length_drop]
    omega⟩

/-- `strncpy`: the source up to the size of the array, then zeros. -/
def ncopy (n : Nat) (src : List UInt8) : Buffer n :=
  ⟨src.take n ++ List.replicate (n - src.length) 0, by
    simp only [List.length_append, List.length_take, List.length_replicate]
    omega⟩

/-- `b[i] = c`, `none` where `i` is outside the array. -/
def store (i : Nat) (c : UInt8) (b : Buffer n) : Option (Buffer n) :=
  if i < n then some ⟨b.1.set i c, by rw [List.length_set, b.2]⟩ else none

theorem store_of_lt {i : Nat} {c : UInt8} {b : Buffer n} (h : i < n) :
    b.store i c = some ⟨b.1.set i c, by rw [List.length_set, b.2]⟩ := if_pos h

theorem write_val {w : List UInt8} {b : Buffer n} (h : w.length ≤ n) :
    (b.write w).1 = w ++ b.1.drop w.length := by
  apply List.take_of_length_le
  have := b.2
  simp only [List.length_append, List.length_drop]
  omega

theorem write_take (w : List UInt8) (b : Buffer n) :
    (b.write w).1.take (min w.length n) = w.take n := by
  have hle : min w.length n ≤ w.length := Nat.min_le_left w.length n
  rw [write, List.take_take, Nat.min_eq_left (Nat.min_le_right w.length n),
    List.take_append_of_le_length hle, Nat.min_comm, ← List.take_eq_take_min]

theorem write_drop {w : List UInt8} {b : Buffer n} (h : w.length ≤ n) {k : Nat}
    (hk : k ≤ w.length) : (b.write w).1.drop k = w.drop k ++ b.1.drop w.length := by
  rw [write_val h, List.drop_append_of_le_length hk]

theorem write_getElem? {w : List UInt8} {b : Buffer n} (h : w.length ≤ n) (j : Nat) :
    (b.write w).1[j]? = if j < w.length then w[j]? else b.1[j]? := by
  rw [write_val h]
  by_cases hj : j < w.length
  · rw [if_pos hj, List.getElem?_append_left hj]
  · rw [if_neg hj, List.getElem?_append_right (by omega), List.getElem?_drop]
    congr 1
    omega

end Buffer

namespace CString

/-- The string an array holds, `none` when a reader would run off its end. -/
def content : List UInt8 → Option (List UInt8)
  | [] => none
  | c :: b => if c = 0 then some [] else (content b).map (c :: ·)

theorem content_eq_some {b s : List UInt8} :
    content b = some s ↔ 0 ∉ s ∧ ∃ rest, b = s ++ 0 :: rest := by
  induction b generalizing s with
  | nil => simp [content]
  | cons c b ih =>
    by_cases hc : c = 0
    · subst hc
      cases s with
      | nil => simp [content]
      | cons d s =>
        simp only [content, if_true, Option.some.injEq, List.nil_eq, reduceCtorEq, false_iff]
        intro hex
        obtain ⟨hd, rest, hb⟩ := hex
        simp [(List.cons.inj hb).1.symm] at hd
    · cases s with
      | nil => simp [content, hc]
      | cons d s =>
        have hiff : (content b).map (c :: ·) = some (d :: s) ↔ c = d ∧ content b = some s := by
          cases content b <;> simp
        simp only [content, if_neg hc, hiff, ih, List.mem_cons, not_or, List.cons_append,
          List.cons.injEq, exists_and_left]
        constructor
        · intro hex
          obtain ⟨rfl, hs, rest, hb⟩ := hex
          exact ⟨⟨fun h => hc h.symm, hs⟩, rfl, rest, hb⟩
        · intro hex
          obtain ⟨⟨-, hs⟩, rfl, rest, hb⟩ := hex
          exact ⟨rfl, hs, rest, hb⟩

theorem content_append {s b : List UInt8} (hs : 0 ∉ s) :
    content (s ++ b) = (content b).map (s ++ ·) := by
  induction s with
  | nil => cases h : content b <;> simp [h]
  | cons c s ih =>
    have hc : c ≠ 0 := by
      intro he
      subst he
      simp at hs
    have hrest := ih (by simpa using fun h => hs (List.mem_cons_of_mem _ h))
    cases h : content b <;> simp [content, hc, hrest, h]

theorem content_ncopy {n : Nat} {src : List UInt8} (hsrc : 0 ∉ src) (h : src.length < n) :
    content (Buffer.ncopy n src).1 = some src := by
  obtain ⟨k, hk⟩ : ∃ k, n - src.length = k + 1 := ⟨n - src.length - 1, by omega⟩
  refine content_eq_some.mpr ⟨hsrc, List.replicate k 0, ?_⟩
  simp only [Buffer.ncopy, hk, List.take_of_length_le (Nat.le_of_lt h), List.replicate_succ]

/-- `strcmp(s, b) != 0`, `none` when the comparison runs off the array `b`. -/
def differs : List UInt8 → List UInt8 → Option Bool
  | _, [] => none
  | [], c :: _ => some (c != 0)
  | a :: s, c :: b => if a = c then differs s b else some true

theorem differs_eq {s b u : List UInt8} (hs : 0 ∉ s) (hb : content b = some u) :
    differs s b = some (decide (s ≠ u)) := by
  induction b generalizing s u with
  | nil => cases hb
  | cons c b ih =>
    cases s with
    | nil =>
      by_cases hc : c = 0
      · subst hc
        obtain rfl : [] = u := by simpa [content] using hb
        rfl
      · obtain ⟨v, -, rfl⟩ := Option.map_eq_some_iff.mp (by simpa [content, hc] using hb)
        simp [differs, hc]
    | cons a s =>
      have ha : a ≠ 0 := fun h => hs (by simp [h])
      by_cases hac : a = c
      · subst hac
        obtain ⟨v, hv, rfl⟩ := Option.map_eq_some_iff.mp (by simpa [content, ha] using hb)
        have hrest := ih (s := s) (fun h => hs (List.mem_cons_of_mem _ h)) hv
        simp only [differs, if_true, hrest, ne_eq, List.cons.injEq, true_and]
      · rw [differs, if_neg hac]
        have hne : a :: s ≠ u := by
          intro he
          subst he
          obtain ⟨-, rest, hrest⟩ := content_eq_some.mp hb
          exact hac (List.cons.inj hrest).1.symm
        simp [hne]

theorem content_append_zero (t rest : List UInt8) :
    ∃ u, content (t ++ 0 :: rest) = some u ∧ u <+: t := by
  induction t with
  | nil => exact ⟨[], by simp [content], List.nil_prefix⟩
  | cons c t ih =>
    by_cases hc : c = 0
    · exact ⟨[], by simp [content, hc], List.nil_prefix⟩
    · obtain ⟨u, hu, hpre⟩ := ih
      exact ⟨c :: u, by simp [content, hc, hu], List.cons_prefix_cons.mpr ⟨rfl, hpre⟩⟩

/-- What stands before the last `c`: the string that is left when the byte
`strrchr` finds is overwritten with NUL. -/
def beforeLast (c : UInt8) : List UInt8 → Option (List UInt8)
  | [] => none
  | x :: xs =>
    match beforeLast c xs with
    | some p => some (x :: p)
    | none => if x = c then some [] else none

theorem beforeLast_eq_none {c : UInt8} {s : List UInt8} : beforeLast c s = none ↔ c ∉ s := by
  induction s with
  | nil => simp [beforeLast]
  | cons x xs ih =>
    cases h : beforeLast c xs with
    | none => simp [beforeLast, h, ih.mp h, eq_comm]
    | some p =>
      have hmem : c ∈ xs := by
        by_contra hc
        simp [ih.mpr hc] at h
      simp [beforeLast, h, hmem]

theorem beforeLast_eq_some {c : UInt8} {s p : List UInt8} :
    beforeLast c s = some p ↔ ∃ t, s = p ++ c :: t ∧ c ∉ t := by
  induction s generalizing p with
  | nil => simp [beforeLast]
  | cons x xs ih =>
    cases h : beforeLast c xs with
    | none =>
      have hc := beforeLast_eq_none.mp h
      by_cases hx : x = c
      · subst hx
        simp only [beforeLast, h, if_true, Option.some.injEq]
        constructor
        · intro he
          subst he
          exact ⟨xs, rfl, hc⟩
        · intro hex
          obtain ⟨t, ht, -⟩ := hex
          cases p with
          | nil => rfl
          | cons y p =>
            have hxs := (List.cons.inj ht).2
            exact absurd (by simp [hxs]) hc
      · simp only [beforeLast, h, if_neg hx, reduceCtorEq, false_iff]
        intro hex
        obtain ⟨t, ht, -⟩ := hex
        cases p with
        | nil => exact hx (List.cons.inj ht).1
        | cons y p =>
          have hxs := (List.cons.inj ht).2
          exact hc (by simp [hxs])
    | some q =>
      obtain ⟨t, rfl, ht⟩ := ih.mp h
      simp only [beforeLast, h, Option.some.injEq]
      constructor
      · intro he
        subst he
        exact ⟨t, rfl, ht⟩
      · intro hex
        obtain ⟨t', ht', hnot⟩ := hex
        cases p with
        | nil =>
          have hxs := (List.cons.inj ht').2
          exact absurd (by simp [← hxs]) hnot
        | cons y p =>
          have hcons := List.cons.inj ht'
          have hp : beforeLast c (q ++ c :: t) = some p := ih.mpr ⟨t', hcons.2, hnot⟩
          rw [hcons.1, Option.some.inj (h.symm.trans hp)]

def cutLast (c : UInt8) (s : List UInt8) : List UInt8 := (beforeLast c s).getD s

theorem cutLast_eq {c : UInt8} {s e : List UInt8} :
    cutLast c s = e ↔ (s = e ∧ c ∉ e) ∨ ∃ t, s = e ++ c :: t ∧ c ∉ t := by
  cases h : beforeLast c s with
  | none =>
    have hc := beforeLast_eq_none.mp h
    simp only [cutLast, h, Option.getD_none]
    constructor
    · intro he
      subst he
      exact .inl ⟨rfl, hc⟩
    · intro hor
      rcases hor with ⟨rfl, -⟩ | ⟨t, rfl, -⟩
      · rfl
      · exact absurd (by simp) hc
  | some p =>
    simp only [cutLast, h, Option.getD_some]
    constructor
    · intro he
      subst he
      exact .inr (beforeLast_eq_some.mp h)
    · intro hor
      rcases hor with ⟨rfl, hc⟩ | ht
      · rw [beforeLast_eq_none.mpr hc] at h
        cases h
      · exact Option.some.inj (h.symm.trans (beforeLast_eq_some.mpr ht))

end CString
