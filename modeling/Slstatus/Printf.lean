import Slstatus.Basic

/-! The printf family as util.c uses it, for arguments that are all strings. A
directive other than `%%` and `%s`, or one without an argument left, has no
defined meaning here. -/

namespace Slstatus

inductive Piece
  | byte (c : UInt8)
  | string (left : Bool) (width : Nat) (precision : Option Nat)

inductive FormatState
  | text
  | percent
  | flags (left : Bool)
  | width (left : Bool) (w : Nat)
  | precision (left : Bool) (w p : Nat)

def isDigit (c : UInt8) : Bool := 48 ≤ c && c ≤ 57

def digitValue (c : UInt8) : Nat := c.toNat - 48

def parseFormat : FormatState → Bytes → Option (List Piece)
  | .text, [] => some []
  | .text, c :: cs =>
    if c = 37 then parseFormat .percent cs
    else (parseFormat .text cs).map (.byte c :: ·)
  | .percent, 37 :: cs => (parseFormat .text cs).map (.byte 37 :: ·)
  | .percent, 115 :: cs => (parseFormat .text cs).map (.string false 0 none :: ·)
  | .percent, 45 :: cs => parseFormat (.flags true) cs
  | .percent, 46 :: cs => parseFormat (.precision false 0 0) cs
  | .percent, c :: cs =>
    if c = 43 || c = 32 then parseFormat (.flags false) cs
    else if c ≠ 48 && isDigit c then parseFormat (.width false (digitValue c)) cs
    else none
  | .flags l, 115 :: cs => (parseFormat .text cs).map (.string l 0 none :: ·)
  | .flags _, 45 :: cs => parseFormat (.flags true) cs
  | .flags l, 46 :: cs => parseFormat (.precision l 0 0) cs
  | .flags l, c :: cs =>
    if c = 43 || c = 32 then parseFormat (.flags l) cs
    else if c ≠ 48 && isDigit c then parseFormat (.width l (digitValue c)) cs
    else none
  | .width l w, 115 :: cs => (parseFormat .text cs).map (.string l w none :: ·)
  | .width l w, 46 :: cs => parseFormat (.precision l w 0) cs
  | .width l w, c :: cs =>
    if isDigit c then parseFormat (.width l (w * 10 + digitValue c)) cs else none
  | .precision l w p, 115 :: cs => (parseFormat .text cs).map (.string l w (some p) :: ·)
  | .precision l w p, c :: cs =>
    if isDigit c then parseFormat (.precision l w (p * 10 + digitValue c)) cs else none
  | _, [] => none

def pad (left : Bool) (width : Nat) (s : Bytes) : Bytes :=
  let fill := List.replicate (width - s.length) 32
  if left then s ++ fill else fill ++ s

def expand : List Piece → List Bytes → Option Bytes
  | [], _ => some []
  | .byte c :: ps, args => (expand ps args).map (c :: ·)
  | .string l w p :: ps, arg :: args =>
    (expand ps args).map (pad l w (match p with | none => arg | some p => arg.take p) ++ ·)
  | .string .. :: _, [] => none

/-- The whole text `vsnprintf` would write, or `none` where it is undefined. -/
def vsnprintf (fmt : Bytes) (args : List Bytes) : Option Bytes :=
  (parseFormat .text fmt).bind (fun ps => expand ps args)

def evsnprintf (size : Nat) (fmt : Bytes) (args : List Bytes) : Except Fault (Int × Bytes) :=
  match vsnprintf fmt args with
  | none => .error .undefinedFormat
  | some text =>
    if size ≤ text.length then .ok (-1, text.take (size - 1)) else .ok (text.length, text)

def esnprintf (size : Nat) (fmt : Bytes) (args : List Bytes) : Except Fault (Int × Bytes) :=
  evsnprintf size fmt args

def bprintf (text : Bytes) : Option Bytes :=
  if 1024 ≤ text.length then none else some text

theorem esnprintf_undefined {size : Nat} {fmt : Bytes} {args : List Bytes}
    (h : vsnprintf fmt args = none) : esnprintf size fmt args = .error .undefinedFormat := by
  simp only [esnprintf, evsnprintf, h]

theorem esnprintf_fits {size : Nat} {fmt text : Bytes} {args : List Bytes}
    (h : vsnprintf fmt args = some text) (hfit : text.length < size) :
    esnprintf size fmt args = .ok (text.length, text) := by
  simp only [esnprintf, evsnprintf, h, if_neg (Nat.not_le.mpr hfit)]

theorem esnprintf_truncated {size : Nat} {fmt text : Bytes} {args : List Bytes}
    (h : vsnprintf fmt args = some text) (hlong : size ≤ text.length) :
    esnprintf size fmt args = .ok (-1, text.take (size - 1)) := by
  simp only [esnprintf, evsnprintf, h, if_pos hlong]

theorem esnprintf_ok (size : Nat) {fmt text : Bytes} {args : List Bytes}
    (h : vsnprintf fmt args = some text) : ∃ out, esnprintf size fmt args = .ok out := by
  rcases Nat.lt_or_ge text.length size with hfit | hlong
  · exact ⟨_, esnprintf_fits h hfit⟩
  · exact ⟨_, esnprintf_truncated h hlong⟩

theorem vsnprintf_plain {fmt : Bytes} (args : List Bytes) (h : 37 ∉ fmt) :
    vsnprintf fmt args = some fmt := by
  have hparse : parseFormat .text fmt = some (fmt.map .byte) := by
    induction fmt with
    | nil => rfl
    | cons c cs ih =>
      have hc : c ≠ 37 := fun heq => h (heq ▸ List.mem_cons_self)
      rw [parseFormat, if_neg hc, ih (fun hmem => h (List.mem_cons_of_mem c hmem))]
      rfl
  have hexpand : expand (fmt.map .byte) args = some fmt := by
    clear h hparse
    induction fmt with
    | nil => rfl
    | cons c cs ih =>
      rw [List.map_cons, expand, ih]
      rfl
  rw [vsnprintf, hparse, Option.bind_some, hexpand]

theorem expand_length {ps : List Piece} {text : Bytes} (h : expand ps [] = some text) :
    text.length = ps.length := by
  induction ps generalizing text with
  | nil =>
    obtain rfl := Option.some.inj h
    rfl
  | cons p ps ih =>
    cases p with
    | string left width precision => cases h
    | byte c =>
      rw [expand, Option.map_eq_some_iff] at h
      obtain ⟨rest, hrest, rfl⟩ := h
      rw [List.length_cons, ih hrest, List.length_cons]

theorem length_map_cons_le {p : Piece} {r : Option (List Piece)} {ps : List Piece} {n : Nat}
    (hr : ∀ {qs}, r = some qs → qs.length ≤ n) (h : r.map (p :: ·) = some ps) :
    ps.length ≤ n + 1 := by
  rw [Option.map_eq_some_iff] at h
  obtain ⟨qs, hqs, rfl⟩ := h
  exact Nat.succ_le_succ (hr hqs)

theorem parseFormat_length_le {st : FormatState} {cs : Bytes} {ps : List Piece}
    (h : parseFormat st cs = some ps) : ps.length ≤ cs.length := by
  fun_induction parseFormat st cs generalizing ps
  all_goals first
    -- a piece ends here
    | (rename_i ih; exact length_map_cons_le ih h)
    -- the byte belongs to a directive that goes on
    | (rename_i ih; exact Nat.le_succ_of_le (ih h))
    | (obtain rfl := Option.some.inj h; exact Nat.le_refl 0)
    | cases h

theorem parseFormat_length_lt {cs : Bytes} {ps : List Piece} (h : parseFormat .text cs = some ps)
    (hmem : 37 ∈ cs) : ps.length < cs.length := by
  induction cs generalizing ps with
  | nil => cases hmem
  | cons c cs ih =>
    by_cases hc : c = 37
    · rw [parseFormat, if_pos hc] at h
      exact Nat.lt_succ_of_le (parseFormat_length_le h)
    · have hrest : 37 ∈ cs := by
        rcases List.mem_cons.mp hmem with heq | hrest
        · exact absurd heq.symm hc
        · exact hrest
      rw [parseFormat, if_neg hc, Option.map_eq_some_iff] at h
      obtain ⟨qs, hqs, rfl⟩ := h
      exact Nat.succ_lt_succ (ih hqs hrest)

/-- A text without arguments prints itself, except that a percent sign shortens it. -/
theorem vsnprintf_nil_length_lt {fmt text : Bytes} (h : vsnprintf fmt [] = some text)
    (hmem : 37 ∈ fmt) : text.length < fmt.length := by
  rw [vsnprintf, Option.bind_eq_some_iff] at h
  obtain ⟨ps, hps, htext⟩ := h
  rw [expand_length htext]
  exact parseFormat_length_lt hps hmem

example : vsnprintf (lit "cpu %-4s|%.1s%%") [lit "12", lit "34"] = some (lit "cpu 12  |3%") := by
  decide

end Slstatus
