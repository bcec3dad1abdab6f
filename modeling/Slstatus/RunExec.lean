import Slstatus.Basic
import Slstatus.Lib.Buffer

/-! `run_exec` from the moment the child runs: the read loop into the shared
`buf`, and the line break cut off. The loop stores every chunk at the start of the
buffer and writes no terminator. -/

namespace Slstatus

abbrev Buf := Buffer 1024

/-- `while ((bytes_read = read(pipefd[0], buf, sizeof(buf))) > 0);` where the list
holds what the successive calls read. -/
def readLoop : List Bytes → Buf → Bytes
  | [], b => b.1
  | chunk :: reads, b => readLoop reads (b.write chunk)

/-- The returned string; `strrchr` faults where the buffer holds no NUL. -/
def runExec (reads : List Bytes) (buf : Buf) : Except Fault (Option Bytes) :=
  match CString.content (readLoop reads (buf.write [0])) with
  | none => .error .outOfBounds
  | some s =>
    let s := CString.cutLast 10 s
    .ok (if s = [] then none else some s)

def cutOutput (output : Bytes) : Option Bytes :=
  let s := CString.cutLast 10 output
  if s = [] then none else some s

/-- The byte at position `j` after the reads: that of the last chunk which is
longer than `j`, or else the one that was there before. -/
def settledByte (reads : List Bytes) (buf : Buf) (j : Nat) : UInt8 :=
  match reads.reverse.find? (fun chunk => j < chunk.length) with
  | some chunk => chunk.getD j 0
  | none => if j = 0 then 0 else buf.1.getD j 0

def settled (reads : List Bytes) (buf : Buf) : Bytes :=
  (List.range 1024).map (settledByte reads buf)

/-- After the reads the buffer holds `e` followed by a NUL or by a line break that
is the last one before a NUL. -/
def HoldsLine (b e : Bytes) : Prop :=
  (10 ∉ e ∧ ∃ rest, b = e ++ 0 :: rest) ∨ ∃ t rest, b = e ++ 10 :: (t ++ 0 :: rest) ∧ 10 ∉ t

theorem readLoop_getElem? {reads : List Bytes} (h : ∀ c ∈ reads, c.length ≤ 1024) (b : Buf)
    (j : Nat) : (readLoop reads b)[j]? =
      match reads.reverse.find? (fun chunk => j < chunk.length) with
      | some chunk => chunk[j]?
      | none => b.1[j]? := by
  induction reads generalizing b with
  | nil => rfl
  | cons c cs ih =>
    rw [readLoop, ih (fun d hd => h d (by simp [hd])), List.reverse_cons, List.find?_append]
    cases hfind : cs.reverse.find? (fun chunk => j < chunk.length) with
    | some d => rfl
    | none =>
      rw [Buffer.write_getElem? (h c (by simp))]
      by_cases hj : j < c.length <;> simp [hj]

theorem readLoop_length (reads : List Bytes) (b : Buf) : (readLoop reads b).length = 1024 := by
  induction reads generalizing b with
  | nil => exact b.2
  | cons c cs ih => exact ih _

theorem readLoop_eq_settled {reads : List Bytes} (h : ∀ c ∈ reads, c.length ≤ 1024) (buf : Buf) :
    readLoop reads (buf.write [0]) = settled reads buf := by
  apply List.ext_getElem?
  intro j
  by_cases hj : j < 1024
  · rw [readLoop_getElem? h, settled, List.getElem?_map, List.getElem?_range hj, Option.map_some,
      settledByte]
    cases hfind : reads.reverse.find? (fun chunk => j < chunk.length) with
    | some c =>
      have hlen : j < c.length := by simpa using List.find?_some hfind
      simp [List.getD, List.getElem?_eq_getElem hlen]
    | none =>
      have hbuf : j < buf.1.length := by rw [buf.2]; exact hj
      by_cases h0 : j = 0
      · simp [Buffer.write_getElem?, h0]
      · simp [Buffer.write_getElem?, h0, List.getD, List.getElem?_eq_getElem hbuf]
  · rw [List.getElem?_eq_none (by rw [readLoop_length]; omega),
      List.getElem?_eq_none (by simp only [settled, List.length_map, List.length_range]; omega)]

theorem cutLast_content_iff {b e : Bytes} (he : 0 ∉ e) :
    (∃ s, CString.content b = some s ∧ CString.cutLast 10 s = e) ↔ HoldsLine b e := by
  constructor
  · intro hex
    obtain ⟨s, hs, hcut⟩ := hex
    obtain ⟨-, rest, rfl⟩ := CString.content_eq_some.mp hs
    rcases CString.cutLast_eq.mp hcut with ⟨rfl, hnl⟩ | ⟨t, rfl, hnl⟩
    · exact .inl ⟨hnl, rest, rfl⟩
    · exact .inr ⟨t, rest, by simp, hnl⟩
  · intro hor
    rcases hor with ⟨hnl, rest, rfl⟩ | ⟨t, rest, rfl, hnl⟩
    · exact ⟨e, CString.content_eq_some.mpr ⟨he, rest, rfl⟩, CString.cutLast_eq.mpr (.inl ⟨rfl, hnl⟩)⟩
    · obtain ⟨u, hu, hpre⟩ := CString.content_append_zero t rest
      have hcontent : CString.content (e ++ 10 :: (t ++ 0 :: rest)) = some (e ++ 10 :: u) := by
        simp [CString.content_append he, CString.content, hu]
      exact ⟨e ++ 10 :: u, hcontent,
        CString.cutLast_eq.mpr (.inr ⟨u, rfl, fun h => hnl (hpre.subset h)⟩)⟩

theorem zero_notMem_cutLast {s : Bytes} (h : 0 ∉ s) : 0 ∉ CString.cutLast 10 s := by
  rcases CString.cutLast_eq.mp (rfl : CString.cutLast 10 s = _) with ⟨hs, -⟩ | ⟨t, hs, -⟩
  · exact hs ▸ h
  · intro h0
    exact h (by rw [hs]; exact List.mem_append_left _ h0)

/-- For a child that writes a NUL-free output of less than 1024 bytes, read in any
chunks over any earlier content of the buffer, `run_exec` returns that output cut
at its last line break exactly when the reads leave that line in the buffer. -/
theorem runExec_eq_cutOutput_iff (reads : List Bytes) (buf : Buf) (hnul : 0 ∉ reads.flatten)
    (hlen : reads.flatten.length < 1024) :
    runExec reads buf = .ok (cutOutput reads.flatten) ↔
      HoldsLine (settled reads buf) (CString.cutLast 10 reads.flatten) := by
  have hchunks : ∀ c ∈ reads, c.length ≤ 1024 := by
    intro c hc
    have := (List.sublist_flatten_of_mem hc).length_le
    omega
  rw [← cutLast_content_iff (zero_notMem_cutLast hnul), ← readLoop_eq_settled hchunks]
  cases hs : CString.content (readLoop reads (buf.write [0])) with
  | none => simp [runExec, hs]
  | some s =>
    simp only [runExec, hs, cutOutput, Except.ok.injEq, Option.some.injEq, exists_eq_left']
    constructor
    · intro h
      split_ifs at h with h1 h2 h2
      · rw [h1, h2]
      · exact Option.some.inj h
    · intro h
      rw [h]

theorem runExec_eq_cutOutput_line :
    runExec [lit "up 3 days\n"] (Buffer.zeros 1024) = .ok (cutOutput [lit "up 3 days\n"].flatten) ↔
      HoldsLine (settled [lit "up 3 days\n"] (Buffer.zeros 1024))
        (CString.cutLast 10 [lit "up 3 days\n"].flatten) :=
  runExec_eq_cutOutput_iff [lit "up 3 days\n"] (Buffer.zeros 1024) (by decide) (by decide)

theorem runExec_leaks_and_loses :
    runExec [lit "ok"] ((Buffer.zeros 1024).write (lit "12:30:59")) ≠ .ok (cutOutput (lit "ok")) ∧
    runExec [lit "up 3 days", lit "\n"] (Buffer.zeros 1024) ≠
      .ok (cutOutput (lit "up 3 days\n")) := by
  decide +kernel

end Slstatus
