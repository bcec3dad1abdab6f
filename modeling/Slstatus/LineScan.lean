import Mathlib.Data.List.TakeWhile
import Slstatus.LinuxMemory

/-! `lscanf` of util.c on the stream that its callers share. It reads a file in pieces of at
most 255 bytes and takes every piece for a line. -/

namespace Slstatus

/-- A stream by the text that has been read and the text that is left. -/
structure Stream where
  read : Bytes
  left : Bytes
  deriving DecidableEq

def Stream.rewind (fp : Stream) : Stream := ⟨[], fp.read ++ fp.left⟩

def Stream.fgets (size : Nat) (fp : Stream) : Option (Bytes × Stream) :=
  if fp.left = [] then none
  else
    let line := Lines.firstPiece (size - 1) fp.left
    some (line, ⟨fp.read ++ line, fp.left.drop line.length⟩)

/-- `sscanf(line + strlen(key), "%ju kB", res)`. -/
def scanAfter (key line : Bytes) : Option UInt64 :=
  match scanNumber (line.drop key.length) with
  | .number z => some (toUintmax z)
  | _ => none

/-- What a call stores where it returns 1, and the text before the piece that it took for the
line of the key. -/
structure Found where
  value : Option UInt64
  before : Option Bytes
  deriving DecidableEq

def lscanfLoop (key : Bytes) : Nat → Stream → Found × Stream
  | 0, fp => (⟨none, none⟩, fp)
  | n + 1, fp =>
    match fp.fgets 256 with
    | none => (⟨none, none⟩, fp)
    | some (line, next) =>
      if key.isPrefixOf line then (⟨scanAfter key line, some fp.read⟩, next)
      else lscanfLoop key n next

/-- Every read gets a byte at least, so that the loop has no more passes than there are bytes. -/
def lscanfStream (key : Bytes) (fp : Stream) : Found × Stream :=
  let (found, fp) := lscanfLoop key (fp.left.length + 1) fp
  (found, fp.rewind)

def lscanfCalls : List Bytes → Stream → List Found × Stream
  | [], fp => ([], fp)
  | key :: keys, fp =>
    let (found, fp) := lscanfStream key fp
    let (rest, fp) := lscanfCalls keys fp
    (found :: rest, fp)

/-- What the call is for: the text after the key on the first line that begins with it. -/
def lineValue (lines : List Bytes) (key : Bytes) : Option UInt64 :=
  (lines.find? key.isPrefixOf).bind (scanAfter key)

def LineStart (before : Bytes) : Prop := before = [] ∨ Lines.Terminated before

/-- The pieces may stand for the lines: no line before the one of the key has a later piece
that begins with the key, and the line of the key has its number in its first piece. -/
structure ReadsLines (lines : List Bytes) (key : Bytes) : Prop where
  middle : ∀ line ∈ lines.takeWhile (fun line => !key.isPrefixOf line), ∀ k, 1 ≤ k →
    ¬ key <+: (line.drop (255 * k)).take 255
  cut : ∀ line, lines.find? key.isPrefixOf = some line →
    scanAfter key (line.take 255) = scanAfter key line

/-- The first piece that begins with the key, with the text before it. -/
def firstMatch (key : Bytes) : Bytes → List Bytes → Option (Bytes × Bytes)
  | _, [] => none
  | before, piece :: pieces =>
    if key.isPrefixOf piece then some (before, piece)
    else firstMatch key (before ++ piece) pieces

def foundIn (key : Bytes) : Option (Bytes × Bytes) → Found
  | none => ⟨none, none⟩
  | some (before, piece) => ⟨scanAfter key piece, some before⟩

section Loop

variable {key : Bytes} {fp : Stream}

theorem fgets_eq {size : Nat} (h : fp.left ≠ []) :
    fp.fgets size = some (Lines.firstPiece (size - 1) fp.left,
      ⟨fp.read ++ Lines.firstPiece (size - 1) fp.left,
        fp.left.drop (Lines.firstPiece (size - 1) fp.left).length⟩) := if_neg h

variable (key fp) in
theorem lscanfLoop_eq {n : Nat} (h : fp.left.length < n) :
    (lscanfLoop key n fp).1 =
        foundIn key (firstMatch key fp.read (Lines.fgetsLines 255 255 fp.left)) ∧
      (lscanfLoop key n fp).2.rewind = fp.rewind := by
  induction n generalizing fp with
  | zero => omega
  | succ n ih =>
    by_cases hleft : fp.left = []
    · have hend : fp.fgets 256 = none := if_pos hleft
      rw [lscanfLoop, hend, hleft]
      exact ⟨rfl, rfl⟩
    · have hpos := List.length_pos_iff.mpr hleft
      have hpiece := Lines.firstPiece_append 255 fp.left
      have hne := List.length_pos_iff.mpr (Lines.firstPiece_ne_nil 255 hleft)
      rw [lscanfLoop, fgets_eq hleft, Lines.fgetsLines_cons hleft, firstMatch]
      show (if key.isPrefixOf (Lines.firstPiece 255 fp.left) then _ else _ : Found × Stream).1 = _ ∧
        (if key.isPrefixOf (Lines.firstPiece 255 fp.left) then _ else _ : Found × Stream).2.rewind = _
      by_cases hkey : key.isPrefixOf (Lines.firstPiece 255 fp.left)
      · rw [if_pos hkey, if_pos hkey]
        refine ⟨rfl, ?_⟩
        rw [Stream.rewind, Stream.rewind, List.append_assoc, hpiece]
      · rw [if_neg hkey, if_neg hkey]
        obtain ⟨hfound, hrewind⟩ := ih
          ⟨fp.read ++ Lines.firstPiece 255 fp.left,
            fp.left.drop (Lines.firstPiece 255 fp.left).length⟩
          (by rw [List.length_drop]; omega)
        refine ⟨hfound, hrewind.trans ?_⟩
        rw [Stream.rewind, Stream.rewind, List.append_assoc, hpiece]

theorem lscanfStream_eq (key : Bytes) (content : Bytes) :
    lscanfStream key ⟨[], content⟩ =
      (foundIn key (firstMatch key [] ((Lines.getLines content).flatMap (Lines.chunks 255 255))),
        ⟨[], content⟩) := by
  obtain ⟨hfound, hrewind⟩ :=
    lscanfLoop_eq key ⟨[], content⟩ (Nat.lt_succ_self content.length)
  rw [Lines.fgetsLines_flatMap] at hfound
  exact Prod.ext hfound hrewind

/-- Each call finds the stream as the one before it has found it. -/
theorem lscanfCalls_eq (keys : List Bytes) (content : Bytes) :
    lscanfCalls keys ⟨[], content⟩ =
      (keys.map (fun key => (lscanfStream key ⟨[], content⟩).1), ⟨[], content⟩) := by
  induction keys with
  | nil => rfl
  | cons key keys ih =>
    have hrewound : (lscanfStream key ⟨[], content⟩).2 = ⟨[], content⟩ := by rw [lscanfStream_eq]
    simp only [lscanfCalls, hrewound, ih, List.map_cons]

end Loop

section Match

variable {key before : Bytes} {pieces : List Bytes}

theorem firstMatch_append (more : List Bytes) :
    firstMatch key before (pieces ++ more) =
      (firstMatch key before pieces).or (firstMatch key (before ++ pieces.flatten) more) := by
  induction pieces generalizing before with
  | nil => rw [List.nil_append, firstMatch, Option.none_or, List.flatten_nil, List.append_nil]
  | cons piece pieces ih =>
    rw [List.cons_append, firstMatch, firstMatch]
    split_ifs with hkey
    · rfl
    · rw [ih, List.flatten_cons, List.append_assoc]

theorem firstMatch_eq_none :
    firstMatch key before pieces = none ↔ ∀ piece ∈ pieces, ¬ key <+: piece := by
  induction pieces generalizing before with
  | nil => simp [firstMatch]
  | cons piece pieces ih =>
    rw [firstMatch, List.forall_mem_cons, ← List.isPrefixOf_iff_prefix]
    split_ifs with hkey
    · simp [hkey]
    · simp [hkey, ih]

theorem firstMatch_eq_some {b piece : Bytes} (h : firstMatch key before pieces = some (b, piece)) :
    ∃ xs ys, pieces = xs ++ piece :: ys ∧ b = before ++ xs.flatten ∧ key <+: piece := by
  induction pieces generalizing before with
  | nil => cases h
  | cons first pieces ih =>
    rw [firstMatch] at h
    split_ifs at h with hkey
    · cases h
      exact ⟨[], pieces, rfl, (List.append_nil _).symm, List.isPrefixOf_iff_prefix.mp hkey⟩
    · obtain ⟨xs, ys, rfl, rfl, hpiece⟩ := ih h
      refine ⟨first :: xs, ys, rfl, ?_, hpiece⟩
      rw [List.flatten_cons, List.append_assoc]

end Match

/-- The call on the pieces of these lines, with the text before them, meets its purpose. -/
def PieceLaw (key before : Bytes) (lines : List Bytes) : Prop :=
  (foundIn key (firstMatch key before (lines.flatMap (Lines.chunks 255 255)))).value =
      lineValue lines key ∧
    ∀ b ∈ (foundIn key (firstMatch key before (lines.flatMap (Lines.chunks 255 255)))).before,
      LineStart b

section Pieces

variable {key before line : Bytes} {lines : List Bytes}

theorem pieceLaw_of_none
    (h : firstMatch key before (lines.flatMap (Lines.chunks 255 255)) = none) :
    PieceLaw key before lines ↔ lineValue lines key = none := by
  rw [PieceLaw, h]
  constructor
  · rintro ⟨hvalue, -⟩
    exact hvalue.symm
  · intro hvalue
    exact ⟨hvalue.symm, fun b hb => by cases hb⟩

theorem pieceLaw_of_some {b piece : Bytes}
    (h : firstMatch key before (lines.flatMap (Lines.chunks 255 255)) = some (b, piece)) :
    PieceLaw key before lines ↔ scanAfter key piece = lineValue lines key ∧ LineStart b := by
  rw [PieceLaw, h]
  constructor
  · rintro ⟨hvalue, hstart⟩
    exact ⟨hvalue, hstart b rfl⟩
  · rintro ⟨hvalue, hstart⟩
    refine ⟨hvalue, fun b' hb => ?_⟩
    obtain rfl := Option.some.inj hb
    exact hstart

/-- A key that is longer than the array is not found, and then no line may have a number
after it. -/
theorem pieceLaw_long (hkey : 255 < key.length) :
    PieceLaw key before lines ↔ ReadsLines lines key := by
  have hshort : ∀ piece : Bytes, piece.length ≤ 255 → ¬ key <+: piece := by
    intro piece hlen hbegins
    have := hbegins.length_le
    omega
  have hnone : firstMatch key before (lines.flatMap (Lines.chunks 255 255)) = none := by
    apply firstMatch_eq_none.mpr
    intro piece hpiece
    obtain ⟨line, -, hmem⟩ := List.mem_flatMap.mp hpiece
    obtain ⟨k, -, rfl⟩ := (Lines.mem_chunks (by decide)).mp hmem
    exact hshort _ (List.length_take_le _ _)
  have hcut : ∀ line : Bytes, scanAfter key (line.take 255) = none := by
    intro line
    have hnil : (line.take 255).drop key.length = [] := by
      have := List.length_take_le 255 line
      exact List.drop_eq_nil_of_le (by omega)
    rw [scanAfter, hnil]
    rfl
  rw [pieceLaw_of_none hnone, lineValue]
  constructor
  · intro hvalue
    refine ⟨fun line _ k _ => hshort _ (List.length_take_le _ _), fun line hfind => ?_⟩
    rw [hfind] at hvalue
    exact (hcut line).trans hvalue.symm
  · rintro ⟨-, hread⟩
    cases hfind : lines.find? key.isPrefixOf with
    | none => rfl
    | some line => exact (hread line hfind).symm.trans (hcut line)

theorem readsLines_cons_found (h : key <+: line) :
    ReadsLines (line :: lines) key ↔ scanAfter key (line.take 255) = scanAfter key line := by
  have hkey : key.isPrefixOf line = true := List.isPrefixOf_iff_prefix.mpr h
  constructor
  · rintro ⟨-, hcut⟩
    exact hcut line (List.find?_cons_of_pos hkey)
  · intro hcut
    refine ⟨?_, ?_⟩
    · rw [List.takeWhile_cons_of_neg (by simp [hkey])]
      intro other hother
      cases hother
    · intro other hother
      rw [List.find?_cons_of_pos hkey] at hother
      obtain rfl := Option.some.inj hother
      exact hcut

theorem readsLines_cons_skip (h : ¬ key <+: line) :
    ReadsLines (line :: lines) key ↔
      (∀ k, 1 ≤ k → ¬ key <+: (line.drop (255 * k)).take 255) ∧ ReadsLines lines key := by
  have hkey : ¬ key.isPrefixOf line = true := fun hh => h (List.isPrefixOf_iff_prefix.mp hh)
  have htake : (line :: lines).takeWhile (fun line => !key.isPrefixOf line) =
      line :: lines.takeWhile (fun line => !key.isPrefixOf line) :=
    List.takeWhile_cons_of_pos (by simp [hkey])
  have hfind : (line :: lines).find? key.isPrefixOf = lines.find? key.isPrefixOf :=
    List.find?_cons_of_neg hkey
  constructor
  · rintro ⟨hmiddle, hcut⟩
    rw [htake, List.forall_mem_cons] at hmiddle
    rw [hfind] at hcut
    exact ⟨hmiddle.1, hmiddle.2, hcut⟩
  · rintro ⟨hline, hmiddle, hcut⟩
    refine ⟨?_, ?_⟩
    · rw [htake, List.forall_mem_cons]
      exact ⟨hline, hmiddle⟩
    · rw [hfind]
      exact hcut

/-- The text before a later piece of a line ends inside the line. -/
theorem not_lineStart {x : Bytes} (rest : Bytes) (hx : x ≠ []) (hrest : rest ≠ [])
    (hline : 10 ∉ (x ++ rest).dropLast) : ¬ LineStart (before ++ x) := by
  rw [List.dropLast_append_of_ne_nil hrest] at hline
  rintro (hnil | hterm)
  · exact hx (List.append_eq_nil_iff.mp hnil).2
  · rw [Lines.Terminated, List.getLast?_append_of_ne_nil _ hx] at hterm
    exact hline (List.mem_append_left _ (List.mem_of_getLast? hterm))

variable (before) in
theorem later_eq_none_iff (hkey : key ≠ []) :
    firstMatch key before (Lines.chunks 255 255 (line.drop 255)) = none ↔
      ∀ k, 1 ≤ k → ¬ key <+: (line.drop (255 * k)).take 255 := by
  rw [firstMatch_eq_none]
  constructor
  · intro hall k hk
    obtain ⟨j, rfl⟩ : ∃ j, k = j + 1 := ⟨k - 1, by omega⟩
    have hpiece : (line.drop (255 * (j + 1))).take 255 = ((line.drop 255).drop (255 * j)).take 255 := by
      rw [List.drop_drop, Nat.mul_succ, Nat.add_comm]
    rw [hpiece]
    by_cases hlt : 255 * j < (line.drop 255).length
    · exact hall _ ((Lines.mem_chunks (by decide)).mpr ⟨j, hlt, rfl⟩)
    · rw [List.drop_eq_nil_of_le (Nat.not_lt.mp hlt), List.take_nil, List.prefix_nil]
      exact hkey
  · intro hall piece hmem
    obtain ⟨j, -, rfl⟩ := (Lines.mem_chunks (by decide)).mp hmem
    rw [List.drop_drop, Nat.add_comm, ← Nat.mul_succ]
    exact hall (j + 1) (Nat.succ_pos j)

theorem not_lineStart_later {b piece : Bytes} (hkey : key ≠ []) (hline : 10 ∉ line.dropLast)
    (h : firstMatch key (before ++ line.take 255) (Lines.chunks 255 255 (line.drop 255)) =
      some (b, piece)) : ¬ LineStart b := by
  obtain ⟨xs, ys, hchunks, rfl, hpiece⟩ := firstMatch_eq_some h
  have hne : piece ≠ [] := by
    rintro rfl
    exact hkey (List.prefix_nil.mp hpiece)
  have hlater : line.drop 255 = xs.flatten ++ (piece ++ ys.flatten) := by
    rw [← Lines.flatten_chunks (by decide : 1 ≤ 255) (line.drop 255), hchunks, List.flatten_append,
      List.flatten_cons]
  have hsplit : line.take 255 ++ xs.flatten ++ (piece ++ ys.flatten) = line := by
    rw [List.append_assoc, ← hlater, List.take_append_drop]
  have htake : line.take 255 ≠ [] := by
    intro hnil
    have hempty : line = [] := by
      rcases List.take_eq_nil_iff.mp hnil with hzero | hempty
      · cases hzero
      · exact hempty
    rw [hempty, List.drop_nil] at hlater
    have := (List.append_eq_nil_iff.mp hlater.symm).2
    exact hne (List.append_eq_nil_iff.mp this).1
  rw [List.append_assoc]
  apply not_lineStart (piece ++ ys.flatten)
  · exact fun hnil => htake (List.append_eq_nil_iff.mp hnil).1
  · exact fun hnil => hne (List.append_eq_nil_iff.mp hnil).1
  · rw [hsplit]
    exact hline

theorem lineValue_cons_skip (h : ¬ key <+: line) :
    lineValue (line :: lines) key = lineValue lines key := by
  rw [lineValue, List.find?_cons_of_neg (fun hh => h (List.isPrefixOf_iff_prefix.mp hh))]
  rfl

theorem lineValue_cons_found (h : key <+: line) :
    lineValue (line :: lines) key = scanAfter key line := by
  rw [lineValue, List.find?_cons_of_pos (List.isPrefixOf_iff_prefix.mpr h), Option.bind_some]

theorem flatMap_chunks_cons (hne : line ≠ []) :
    (line :: lines).flatMap (Lines.chunks 255 255) = line.take 255 ::
      (Lines.chunks 255 255 (line.drop 255) ++ lines.flatMap (Lines.chunks 255 255)) := by
  rw [List.flatMap_cons, Lines.chunks_cons hne (by decide), List.cons_append]

variable (before) in
theorem firstMatch_cons_found (hkey : key.length ≤ 255) (hne : line ≠ []) (h : key <+: line) :
    firstMatch key before ((line :: lines).flatMap (Lines.chunks 255 255)) =
      some (before, line.take 255) := by
  have hpiece : key <+: line.take 255 := List.prefix_take_iff.mpr ⟨h, hkey⟩
  rw [flatMap_chunks_cons hne, firstMatch, if_pos (List.isPrefixOf_iff_prefix.mpr hpiece)]

variable (before lines) in
theorem firstMatch_cons_skip (hne : line ≠ []) (h : ¬ key <+: line) :
    firstMatch key before ((line :: lines).flatMap (Lines.chunks 255 255)) =
      (firstMatch key (before ++ line.take 255) (Lines.chunks 255 255 (line.drop 255))).or
        (firstMatch key (before ++ line) (lines.flatMap (Lines.chunks 255 255))) := by
  have hpiece : ¬ key.isPrefixOf (line.take 255) = true := fun hh =>
    h (List.prefix_take_iff.mp (List.isPrefixOf_iff_prefix.mp hh)).1
  rw [flatMap_chunks_cons hne, firstMatch, if_neg hpiece, firstMatch_append,
    Lines.flatten_chunks (by decide), List.append_assoc, List.take_append_drop]

/-- Piece by piece: the line of the key is found at its start, a later piece that begins with
the key is taken for a line, and any other line is passed over. -/
theorem pieceLaw_short (hkey : key.length ≤ 255)
    (hwf : ∀ line ∈ lines, line ≠ [] ∧ 10 ∉ line.dropLast)
    (hterm : ∀ line ∈ lines.dropLast, Lines.Terminated line)
    (hstart : lines ≠ [] → LineStart before) :
    PieceLaw key before lines ↔ ReadsLines lines key := by
  induction lines generalizing before with
  | nil =>
    have hreads : ReadsLines [] key := by
      refine ⟨?_, ?_⟩
      · intro line hline
        cases hline
      · intro line hline
        cases hline
    exact ⟨fun _ => hreads, fun _ => (pieceLaw_of_none rfl).mpr rfl⟩
  | cons line lines ih =>
    obtain ⟨hne, hline⟩ := hwf line List.mem_cons_self
    by_cases hbegins : key <+: line
    · rw [pieceLaw_of_some (firstMatch_cons_found before hkey hne hbegins),
        readsLines_cons_found hbegins, lineValue_cons_found hbegins]
      exact and_iff_left (hstart (List.cons_ne_nil line lines))
    · have hkeyne : key ≠ [] := by
        rintro rfl
        exact hbegins List.nil_prefix
      have hmatch := firstMatch_cons_skip before lines hne hbegins
      rw [readsLines_cons_skip hbegins,
        ← later_eq_none_iff (before ++ line.take 255) hkeyne]
      cases hlater : firstMatch key (before ++ line.take 255) (Lines.chunks 255 255 (line.drop 255)) with
      | some found =>
        rw [hlater, Option.some_or] at hmatch
        constructor
        · intro hlaw
          exact absurd ((pieceLaw_of_some hmatch).mp hlaw).2 (not_lineStart_later hkeyne hline hlater)
        · rintro ⟨hnone, -⟩
          cases hnone
      | none =>
        rw [hlater, Option.none_or] at hmatch
        have hnext : PieceLaw key before (line :: lines) ↔ PieceLaw key (before ++ line) lines := by
          rw [PieceLaw, PieceLaw, hmatch, lineValue_cons_skip hbegins]
        have hstart' : lines ≠ [] → LineStart (before ++ line) := by
          intro hmore
          obtain ⟨second, rest, rfl⟩ := List.exists_cons_of_ne_nil hmore
          right
          rw [Lines.Terminated, List.getLast?_append_of_ne_nil _ hne]
          exact hterm line (by rw [List.dropLast_cons_cons]; exact List.mem_cons_self)
        have hterm' : ∀ line ∈ lines.dropLast, Lines.Terminated line := by
          intro other hother
          apply hterm
          cases lines with
          | nil => cases hother
          | cons second rest =>
            rw [List.dropLast_cons_cons]
            exact List.mem_cons_of_mem line hother
        rw [hnext, ih (fun other hother => hwf other (List.mem_cons_of_mem line hother)) hterm' hstart']
        exact (and_iff_right rfl).symm

theorem pieceLaw_iff (key content : Bytes) :
    PieceLaw key [] (Lines.getLines content) ↔ ReadsLines (Lines.getLines content) key := by
  by_cases hkey : key.length ≤ 255
  · apply pieceLaw_short hkey
    · intro line hline
      exact ⟨Lines.ne_nil_of_mem_getLines hline, Lines.not_mem_dropLast hline⟩
    · intro line hline
      exact Lines.terminated_of_mem_dropLast hline
    · exact fun _ => .inl rfl
  · exact pieceLaw_long (Nat.not_le.mp hkey)

end Pieces

/-- The results of a sequence of calls with their keys. -/
def callValues (content : Bytes) (calls : List Bytes) : List (Bytes × Option UInt64) :=
  calls.zip ((lscanfCalls calls ⟨[], content⟩).1.map Found.value)

/-- A sequence of calls on a stream at its start: each call returns the value of the first line
that begins with its key, takes a piece only where a line starts, and leaves the stream
rewound. A file with the same lines in another order, read by the same calls in another
order, yields the same values. -/
structure LscanfLaw (content : Bytes) (calls : List Bytes) : Prop where
  values : (lscanfCalls calls ⟨[], content⟩).1.map Found.value =
    calls.map (lineValue (Lines.getLines content))
  starts : ∀ found ∈ (lscanfCalls calls ⟨[], content⟩).1, ∀ b ∈ found.before, LineStart b
  rewound : (lscanfCalls calls ⟨[], content⟩).2 = ⟨[], content⟩
  order : ∀ content' calls', (Lines.getLines content').Perm (Lines.getLines content) →
    calls'.Perm calls →
    (∀ key ∈ calls, ((Lines.getLines content).filter key.isPrefixOf).length ≤ 1) →
    (∀ key ∈ calls, ReadsLines (Lines.getLines content') key) →
      (callValues content' calls').Perm (callValues content calls)

section Calls

variable {content content' : Bytes} {calls : List Bytes}

theorem calls_iff :
    ((lscanfCalls calls ⟨[], content⟩).1.map Found.value =
        calls.map (lineValue (Lines.getLines content)) ∧
      ∀ found ∈ (lscanfCalls calls ⟨[], content⟩).1, ∀ b ∈ found.before, LineStart b) ↔
    ∀ key ∈ calls, ReadsLines (Lines.getLines content) key := by
  have hlaw : ∀ key, PieceLaw key [] (Lines.getLines content) ↔
      (lscanfStream key ⟨[], content⟩).1.value = lineValue (Lines.getLines content) key ∧
        ∀ b ∈ (lscanfStream key ⟨[], content⟩).1.before, LineStart b := by
    intro key
    rw [PieceLaw, lscanfStream_eq]
  rw [lscanfCalls_eq, List.map_map, List.map_inj_left, List.forall_mem_map, ← forall₂_and]
  apply forall₂_congr
  intro key _
  exact (hlaw key).symm.trans (pieceLaw_iff key content)

theorem callValues_eq (h : ∀ key ∈ calls, ReadsLines (Lines.getLines content) key) :
    callValues content calls =
      calls.map (fun key => (key, lineValue (Lines.getLines content) key)) := by
  rw [callValues, (calls_iff.mpr h).1, List.map_prod_left_eq_zip]

theorem lineValue_perm {lines lines' : List Bytes} {key : Bytes} (hperm : lines'.Perm lines)
    (hone : (lines.filter key.isPrefixOf).length ≤ 1) :
    lineValue lines' key = lineValue lines key := by
  have hfilter := hperm.filter key.isPrefixOf
  rw [lineValue, lineValue, ← List.head?_filter, ← List.head?_filter]
  cases hlines : lines.filter key.isPrefixOf with
  | nil =>
    rw [hlines] at hfilter
    rw [hfilter.eq_nil]
  | cons line rest =>
    rw [hlines, List.length_cons] at hone
    obtain rfl : rest = [] := List.length_eq_zero_iff.mp (by omega)
    rw [hlines] at hfilter
    rw [List.perm_singleton.mp hfilter]

theorem callValues_perm {calls' : List Bytes}
    (hlines : (Lines.getLines content').Perm (Lines.getLines content))
    (hcalls : calls'.Perm calls)
    (hone : ∀ key ∈ calls, ((Lines.getLines content).filter key.isPrefixOf).length ≤ 1)
    (h : ∀ key ∈ calls, ReadsLines (Lines.getLines content) key)
    (h' : ∀ key ∈ calls, ReadsLines (Lines.getLines content') key) :
    (callValues content' calls').Perm (callValues content calls) := by
  have hsame : calls.map (fun key => (key, lineValue (Lines.getLines content') key)) =
      calls.map (fun key => (key, lineValue (Lines.getLines content) key)) := by
    apply List.map_congr_left
    intro key hkey
    rw [lineValue_perm hlines (hone key hkey)]
  rw [callValues_eq h, callValues_eq (fun key hkey => h' key (hcalls.mem_iff.mp hkey)), ← hsame]
  exact hcalls.map _

/-- Lines that fit into the array are read whole. -/
theorem readsLines_of_short {lines : List Bytes} (h : ∀ line ∈ lines, line.length ≤ 255)
    (key : Bytes) : ReadsLines lines key := by
  refine ⟨?_, ?_⟩
  · intro line hline k hk hbegins
    have hmem := (List.takeWhile_sublist _).subset hline
    have hlen := h line hmem
    rw [List.drop_eq_nil_of_le (by omega), List.take_nil, List.prefix_nil] at hbegins
    have hnot := List.mem_takeWhile_imp hline
    rw [hbegins] at hnot
    cases hnot
  · intro line hfind
    rw [List.take_of_length_le (h line (List.mem_of_find?_eq_some hfind))]

end Calls

/-- The calls do what they are for exactly when the pieces can stand for the lines. -/
theorem lscanfLaw_iff (content : Bytes) (calls : List Bytes) :
    LscanfLaw content calls ↔ ∀ key ∈ calls, ReadsLines (Lines.getLines content) key := by
  constructor
  · rintro ⟨hvalues, hstarts, -, -⟩
    exact calls_iff.mp ⟨hvalues, hstarts⟩
  · intro h
    obtain ⟨hvalues, hstarts⟩ := calls_iff.mpr h
    refine ⟨hvalues, hstarts, by rw [lscanfCalls_eq], ?_⟩
    intro content' calls' hlines hcalls hone h'
    exact callValues_perm hlines hcalls hone h h'

/-- The key stands in the middle of a line, 255 bytes from its start. -/
theorem lscanfLaw_middle :
    ¬ LscanfLaw (List.replicate 255 120 ++ lit "MemFree: 7 kB\nMemFree: 5 kB\n") [lit "MemFree:"] := by
  rintro ⟨hvalues, -, -, -⟩
  have hread : (lscanfCalls [lit "MemFree:"]
      ⟨[], List.replicate 255 120 ++ lit "MemFree: 7 kB\nMemFree: 5 kB\n"⟩).1.map Found.value =
        [some 7] := by decide +kernel
  have hline : lineValue (Lines.getLines
      (List.replicate 255 120 ++ lit "MemFree: 7 kB\nMemFree: 5 kB\n")) (lit "MemFree:") =
        some 5 := by decide +kernel
  rw [hread, List.map_singleton, hline] at hvalues
  exact absurd hvalues (by decide)

section Meminfo

variable {content content' : Bytes}

theorem firstMatch_piece (key before : Bytes) (pieces : List Bytes) :
    (firstMatch key before pieces).map Prod.snd = pieces.find? key.isPrefixOf := by
  induction pieces generalizing before with
  | nil => rfl
  | cons piece pieces ih =>
    rw [firstMatch]
    split_ifs with hkey
    · rw [List.find?_cons_of_pos hkey]
      rfl
    · rw [List.find?_cons_of_neg hkey]
      exact ih (before ++ piece)

/-- The call on the stream is the call on the file. -/
theorem lscanfStream_value (key content : Bytes) :
    (lscanfStream key ⟨[], content⟩).1.value = lscanf { content := content } key := by
  have hlines : ({ content := content } : File).fgetsLines 255 =
      (Lines.getLines content).flatMap (Lines.chunks 255 255) := by
    rw [File.fgetsLines, Lines.fgetsLines_flatMap]
    apply List.filter_eq_self.mpr
    intro line _
    rfl
  rw [lscanfStream_eq, lscanf, hlines, ← firstMatch_piece key []]
  cases firstMatch key [] ((Lines.getLines content).flatMap (Lines.chunks 255 255)) <;> rfl

def ramKeys : List Bytes := [lit "MemTotal:", lit "MemFree:", lit "Buffers:", lit "Cached:",
  lit "Shmem:", lit "SReclaimable:"]

theorem ramVars_congr
    (h : ∀ key ∈ ramKeys, lscanf { content := content' } key = lscanf { content := content } key) :
    ramVars { content := content' } = ramVars { content := content } := by
  simp only [ramKeys, List.forall_mem_cons] at h
  obtain ⟨htotal, hfree, hbuffers, hcached, hshmem, hsreclaimable, -⟩ := h
  simp only [ramVars, htotal, hfree, hbuffers, hcached, hshmem, hsreclaimable]

/-- What `ram_perc` and `ram_used` read does not depend on the order of the fields. -/
theorem ramVars_perm (hlines : (Lines.getLines content').Perm (Lines.getLines content))
    (hshort : ∀ line ∈ Lines.getLines content, line.length ≤ 255)
    (hone : ∀ key ∈ ramKeys, ((Lines.getLines content).filter key.isPrefixOf).length ≤ 1) :
    ramVars { content := content' } = ramVars { content := content } := by
  have hvalue : ∀ {text : Bytes} {key : Bytes}, (∀ line ∈ Lines.getLines text, line.length ≤ 255) →
      lscanf { content := text } key = lineValue (Lines.getLines text) key := by
    intro text key hall
    have hlaw := (pieceLaw_iff key text).mpr (readsLines_of_short hall key)
    rw [← lscanfStream_value, lscanfStream_eq]
    exact hlaw.1
  apply ramVars_congr
  intro key hkey
  rw [hvalue hshort, hvalue (fun line hline => hshort line (hlines.mem_iff.mp hline)),
    lineValue_perm hlines (hone key hkey)]

end Meminfo

end Slstatus
