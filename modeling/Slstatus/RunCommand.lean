import Slstatus.Lib.Lines
import Slstatus.RunExec

/-! `run_command` beside `run_exec`: both cut the text in `buf` at its last line break,
but one of them stores no more than a line there. -/

namespace Slstatus

/-- `output` is what the pipe of `popen` delivers, `none` where `popen` fails. -/
def runCommand (output : Option Bytes) (pcloseFails : Bool) (buf : Buf) :
    Except Fault (Option Bytes) :=
  match output with
  | none => .ok none
  | some output =>
    let p := (Lines.fgetsLines 1022 1022 output).head?
    if pcloseFails then .ok none
    else
      match p with
      | none => .ok none
      | some line =>
        match CString.content (buf.write (line ++ [0])).1 with
        | none => .error .outOfBounds
        | some s =>
          let s := CString.cutLast 10 s
          .ok (if s = [] then none else some s)

/-- The reads that deliver the output at once; the empty one ends the loop. -/
def oneRead (output : Bytes) : List Bytes := if output = [] then [] else [output]

section Returned

variable {output line rest : Bytes}

theorem runCommand_line (hhead : (Lines.fgetsLines 1022 1022 output).head? = some line)
    (hnul : 0 ∉ line) (hlen : line.length ≤ 1022) (buf : Buf) :
    runCommand (some output) false buf = .ok (cutOutput line) := by
  have hfit : (line ++ [0]).length ≤ 1024 := by
    rw [List.length_append, List.length_singleton]
    omega
  have hcontent : CString.content (buf.write (line ++ [0])).1 = some line := by
    rw [Buffer.write_val hfit, List.append_assoc]
    exact CString.content_eq_some.mpr ⟨hnul, _, rfl⟩
  simp only [runCommand, hhead, hcontent, Bool.false_eq_true, if_false, cutOutput]

theorem runExec_oneRead (hnul : 0 ∉ output) (hlen : output.length ≤ 1022) :
    runExec (oneRead output) (Buffer.zeros 1024) = .ok (cutOutput output) := by
  have hstart : ((Buffer.zeros 1024).write [0]).1 = List.replicate 1024 0 := by
    rw [Buffer.write_val (by decide), Buffer.zeros, List.length_singleton, List.drop_replicate]
    exact List.replicate_succ.symm
  have hcontent : CString.content (readLoop (oneRead output) ((Buffer.zeros 1024).write [0])) =
      some output := by
    by_cases hempty : output = []
    · subst hempty
      decide
    · obtain ⟨k, hk⟩ : ∃ k, 1024 - output.length = k + 1 := ⟨1023 - output.length, by omega⟩
      rw [oneRead, if_neg hempty]
      refine CString.content_eq_some.mpr ⟨hnul, List.replicate k 0, ?_⟩
      rw [readLoop, readLoop, Buffer.write_val (by omega), hstart, List.drop_replicate, hk,
        List.replicate_succ]
  simp only [runExec, hcontent, cutOutput]

theorem cutOutput_inj {e e' : Bytes} (h : cutOutput output = cutOutput line)
    (he : CString.cutLast 10 output = e) (he' : CString.cutLast 10 line = e') : e = e' := by
  simp only [cutOutput, he, he'] at h
  split_ifs at h with h1 h2 h2
  · rw [h1, h2]
  · exact Option.some.inj h

end Returned

/-- Both return the same exactly when the output has no more than one line break: with a
second one `run_exec` keeps the lines before the last. -/
theorem run_exec_eq_run_command_iff {output : Bytes} (hnul : 0 ∉ output)
    (hlen : output.length ≤ 1022) :
    runExec (oneRead output) (Buffer.zeros 1024) =
      runCommand (some output) false (Buffer.zeros 1024) ↔ output.count 10 ≤ 1 := by
  rw [runExec_oneRead hnul hlen]
  by_cases hline : 10 ∈ output
  · obtain ⟨line, rest, rfl, hfirst⟩ := List.eq_append_cons_of_mem hline
    have hlen' : line.length + 1 ≤ 1022 := by
      rw [List.length_append, List.length_cons] at hlen
      omega
    have hnul' : 0 ∉ line ++ [10] := by
      intro h0
      rcases List.mem_append.mp h0 with h0 | h0
      · exact hnul (List.mem_append_left _ h0)
      · cases List.mem_singleton.mp h0
    have hcount : (line ++ 10 :: rest).count 10 = rest.count 10 + 1 := by
      rw [List.count_append, List.count_eq_zero_of_not_mem hfirst, List.count_cons_self, Nat.zero_add]
    have hcut : CString.cutLast 10 (line ++ [10]) = line :=
      CString.cutLast_eq.mpr (.inr ⟨[], rfl, List.not_mem_nil⟩)
    have hone : rest.count 10 + 1 ≤ 1 ↔ 10 ∉ rest := by
      rw [← List.count_eq_zero]
      omega
    rw [runCommand_line (Lines.head_fgetsLines_terminated hfirst hlen') hnul' (by simpa using hlen'),
      hcount, hone]
    constructor
    · intro heq hrest
      obtain ⟨p, hp⟩ := Option.ne_none_iff_exists'.mp
        (fun hnone => CString.beforeLast_eq_none.mp hnone hrest)
      obtain ⟨t, rfl, ht⟩ := CString.beforeLast_eq_some.mp hp
      have hlong : CString.cutLast 10 (line ++ 10 :: (p ++ 10 :: t)) = line ++ 10 :: p :=
        CString.cutLast_eq.mpr (.inr ⟨t, by simp, ht⟩)
      have := congrArg List.length (cutOutput_inj (Except.ok.inj heq) hlong hcut)
      rw [List.length_append, List.length_cons] at this
      omega
    · intro hrest
      have hshort : CString.cutLast 10 (line ++ 10 :: rest) = line :=
        CString.cutLast_eq.mpr (.inr ⟨rest, rfl, hrest⟩)
      simp only [cutOutput, hcut, hshort]
  · refine iff_of_true ?_ (by rw [List.count_eq_zero_of_not_mem hline]; omega)
    by_cases hempty : output = []
    · subst hempty
      rfl
    · rw [runCommand_line (Lines.head_fgetsLines_all hline hempty hlen) hnul hlen]

theorem run_exec_eq_run_command_date :
    runExec (oneRead (lit "12:30\n")) (Buffer.zeros 1024) =
      runCommand (some (lit "12:30\n")) false (Buffer.zeros 1024) :=
  (run_exec_eq_run_command_iff (by decide +kernel) (by decide +kernel)).mpr (by decide +kernel)

theorem run_exec_keeps_lines :
    runExec (oneRead (lit "a\nb\n")) (Buffer.zeros 1024) = .ok (some (lit "a\nb")) ∧
      runCommand (some (lit "a\nb\n")) false (Buffer.zeros 1024) = .ok (some (lit "a")) := by
  decide +kernel

end Slstatus
