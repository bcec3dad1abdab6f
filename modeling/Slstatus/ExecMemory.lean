import Mathlib.Tactic.Abel
import Slstatus.ExecArgs
import Slstatus.Lib.Alloc

/-! The memory and the descriptors of one call of `run_exec`: the copy of the command, the
copies of its words and the two ends of the pipe. Allocation, `pipe` and `posix_spawnp` succeed;
the last two end the program otherwise. -/

namespace Slstatus

open Alloc

inductive ExecBlock
  | string (s : Bytes)
  | pipeRead
  | pipeWrite
  | fileActions

/-- A cell of `argv` with its pointer. -/
inductive ArgvPtr
  | unset
  | null
  | ptr (p : Nat)

def setPtr (argv : List ArgvPtr) (i : Nat) (a : ArgvPtr) : Except Fault (List ArgvPtr) :=
  if i < argv.length then .ok (argv.set i a) else .error .outOfBounds

/-- The loop over the tokens with the array and `argc` that it leaves. `rest` is what `strtok`
still has to look at in the copy of the command. -/
def argLoopMem (homeDir : Option Bytes) (exec : Nat) (rest : Bytes) (argc : Nat)
    (argv : List ArgvPtr) : Prog ExecBlock (Except Fault (List ArgvPtr × Nat)) :=
  load exec >>= fun _ =>
    match _h : Tokens.strtok blank rest with
    | none => pure ((setPtr argv argc .null).map (fun argv => (argv, argc)))
    | some (token, rest) =>
      if argc < 9 then
        match execArg homeDir token with
        | .error f => pure (.error f)
        | .ok s =>
          malloc (.string s) >>= fun p =>
            match setPtr argv argc (.ptr p) with
            | .error f => pure (.error f)
            | .ok argv => argLoopMem homeDir exec rest (argc + 1) argv
      else pure ((setPtr argv argc .null).map (fun argv => (argv, argc)))
termination_by rest.length
decreasing_by exact (Tokens.strtok_eq_some _h).2.2.2

/-- What `posix_spawnp` finds behind the pointers. -/
def readArgv : List ArgvPtr → Prog ExecBlock (List ArgvCell)
  | [] => return []
  | .unset :: argv => do
    let cells ← readArgv argv
    return .unset :: cells
  | .null :: argv => do
    let cells ← readArgv argv
    return .null :: cells
  | .ptr p :: argv => do
    match ← load p with
    | .string s => do
      let cells ← readArgv argv
      return .string s :: cells
    | _ => throw .badAccess

def freeArgv : List ArgvPtr → Prog ExecBlock Unit
  | [] => return
  | .unset :: _ => throw .badFree
  | .null :: argv => freeArgv argv
  | .ptr p :: argv => do
    free (some p)
    freeArgv argv

def spawnAndWait (exec pipeRead pipeWrite actions : Nat) (argv : List ArgvPtr) (argc : Nat) :
    Prog ExecBlock (List ArgvCell) := do
  free (some exec)
  let _ ← load actions
  let spawned ← readArgv argv
  free (some pipeWrite)
  let _ ← load pipeRead
  free (some pipeRead)
  free (some actions)
  freeArgv (argv.take argc)
  return spawned

def runExecMem (homeDir : Option Bytes) (cmd : Bytes) :
    Prog ExecBlock (Except Fault (List ArgvCell)) := do
  let exec ← malloc (.string cmd)
  let pipeRead ← malloc .pipeRead
  let pipeWrite ← malloc .pipeWrite
  let actions ← malloc .fileActions
  match ← argLoopMem homeDir exec cmd 0 (List.replicate 10 .unset) with
  | .error f => return .error f
  | .ok (argv, argc) => do
    let spawned ← spawnAndWait exec pipeRead pipeWrite actions argv argc
    return .ok spawned

/-- The copies of the words so far, with their addresses. -/
abbrev Copies := List (Nat × Bytes)

def Copies.blocks (copies : Copies) : Multiset (Block ExecBlock) :=
  (copies.map (fun c => (c.1, ExecBlock.string c.2)) : List (Block ExecBlock))

def Copies.ptrs (copies : Copies) : List ArgvPtr := copies.map (fun c => .ptr c.1)

def Copies.cells (copies : Copies) : List ArgvCell := copies.map (fun c => .string c.2)

/-- What the loop leaves: it fails as `argLoop` does, or its pointers are to the copies that
`argLoop` stores. -/
def LoopOwns (result : Except Fault (List ArgvCell)) (exec : Nat) (cmd : Bytes)
    (out : Except Fault (List ArgvPtr × Nat)) (own : Multiset (Block ExecBlock)) : Prop :=
  match result with
  | .error f => out = .error f
  | .ok argv => ∃ (copies : Copies) (n : Nat),
      out = .ok (copies.ptrs ++ .null :: List.replicate n .unset, copies.length) ∧
        argv = copies.cells ++ .null :: List.replicate n .unset ∧
        own = {(exec, .string cmd)} + copies.blocks

section Loop

variable {copies : Copies} {exec : Nat} {cmd rest token : Bytes} {homeDir : Option Bytes}
  {argc : Nat} {argv : List ArgvPtr}

theorem blocks_concat (copies : Copies) (p : Nat) (s : Bytes) :
    Copies.blocks (copies ++ [(p, s)]) = copies.blocks + {(p, .string s)} := by
  rw [Copies.blocks, List.map_append]
  exact (Multiset.coe_add _ _).symm

/-- The next cell of the array is set. -/
theorem set_next {α : Type} {unset : α} {done : List α} {k : Nat} (a : α) :
    (done ++ List.replicate (k + 1) unset).set done.length a =
      done ++ a :: List.replicate k unset := by
  rw [List.set_append_right _ _ (le_refl _), Nat.sub_self, List.replicate_succ, List.set_cons_zero]

variable (exec homeDir argv) in
/-- The loops end together: when there is no token left or no cell for it. -/
theorem argLoop_end (h : ∀ token rest', Tokens.strtok blank rest = some (token, rest') → ¬ argc < 9)
    (cells : List ArgvCell) :
    argLoop homeDir rest argc cells = setArg cells argc .null ∧
      argLoopMem homeDir exec rest argc argv =
        load exec >>= fun _ => pure ((setPtr argv argc .null).map (fun argv => (argv, argc))) := by
  constructor
  · rw [argLoop]
    split
    · rfl
    · rename_i hnext
      rw [if_neg (h _ _ hnext)]
  · rw [argLoopMem]
    congr 1
    funext _
    split
    · rfl
    · rename_i hnext
      rw [if_neg (h _ _ hnext)]

theorem argLoopMem_some {rest' : Bytes} (h : Tokens.strtok blank rest = some (token, rest'))
    (hargc : argc < 9) :
    argLoopMem homeDir exec rest argc argv =
      load exec >>= fun _ =>
        match execArg homeDir token with
        | .error f => pure (.error f)
        | .ok s =>
          malloc (.string s) >>= fun p =>
            match setPtr argv argc (.ptr p) with
            | .error f => pure (.error f)
            | .ok argv => argLoopMem homeDir exec rest' (argc + 1) argv := by
  rw [argLoopMem]
  congr 1
  funext _
  split
  · rename_i heq
    cases heq.symm.trans h
  · rename_i heq
    obtain ⟨rfl, rfl⟩ := Prod.mk.inj (Option.some.inj (heq.symm.trans h))
    rw [if_pos hargc]

theorem argLoop_some {rest' : Bytes} (h : Tokens.strtok blank rest = some (token, rest'))
    (hargc : argc < 9) (cells : List ArgvCell) :
    argLoop homeDir rest argc cells =
      match execArg homeDir token with
      | .error f => .error f
      | .ok s =>
        match setArg cells argc (.string s) with
        | .error f => .error f
        | .ok cells => argLoop homeDir rest' (argc + 1) cells := by
  rw [argLoop]
  split
  · rename_i heq
    cases heq.symm.trans h
  · rename_i heq
    obtain ⟨rfl, rfl⟩ := Prod.mk.inj (Option.some.inj (heq.symm.trans h))
    exact if_pos hargc

variable (exec cmd homeDir) in
/-- The induction is on what is left of the command; `k` cells of the array are unset beside the
one that the loop looks at. -/
theorem argLoopMem_triple (k : Nat) (rest : Bytes) (copies : Copies) (hk : copies.length + k = 9) :
    Triple ({(exec, ExecBlock.string cmd)} + copies.blocks)
      (argLoopMem homeDir exec rest copies.length (copies.ptrs ++ List.replicate (k + 1) .unset))
      (LoopOwns (argLoop homeDir rest copies.length (copies.cells ++ List.replicate (k + 1) .unset))
        exec cmd) := by
  have hptrs : copies.ptrs.length = copies.length := List.length_map _
  have hcells : copies.cells.length = copies.length := List.length_map _
  have hset (a : ArgvCell) : setArg (copies.cells ++ List.replicate (k + 1) .unset) copies.length a =
      .ok (copies.cells ++ a :: List.replicate k .unset) := by
    rw [setArg, if_pos (by simp [hcells]), ← hcells, set_next]
  have hset' (a : ArgvPtr) : setPtr (copies.ptrs ++ List.replicate (k + 1) .unset) copies.length a =
      .ok (copies.ptrs ++ a :: List.replicate k .unset) := by
    rw [setPtr, if_pos (by simp [hptrs]), ← hptrs, set_next]
  by_cases hend : ∀ token rest', Tokens.strtok blank rest = some (token, rest') → ¬ copies.length < 9
  · obtain ⟨hpure, hmem⟩ := argLoop_end exec homeDir
      (copies.ptrs ++ List.replicate (k + 1) .unset) hend
      (copies.cells ++ List.replicate (k + 1) .unset)
    rw [hpure, hmem, hset, hset']
    refine load_triple.step rfl ?_
    rintro _ _ ⟨rfl, rfl⟩
    exact .pure ⟨copies, k, rfl, rfl, rfl⟩
  · push Not at hend
    obtain ⟨token, rest', hnext, hargc⟩ := hend
    have hshort := (Tokens.strtok_eq_some hnext).2.2.2
    rw [argLoop_some hnext hargc, argLoopMem_some hnext hargc]
    refine load_triple.step rfl ?_
    rintro _ _ ⟨rfl, rfl⟩
    cases harg : execArg homeDir token with
    | error f => exact .pure rfl
    | ok s =>
      simp only [hset]
      refine (malloc_triple _).fresh ?_
      rintro p _ rfl
      simp only [hset']
      obtain ⟨j, rfl⟩ : ∃ j, k = j + 1 := ⟨k - 1, by omega⟩
      have hrest := argLoopMem_triple j rest' (copies ++ [(p, s)]) (by simp; omega)
      rw [blocks_concat, List.length_append, List.length_singleton, Copies.ptrs, Copies.cells,
        List.map_append, List.map_append, List.append_assoc, List.append_assoc] at hrest
      rw [add_comm {(p, ExecBlock.string s)}, add_assoc]
      exact hrest
termination_by rest.length

variable {pipeRead pipeWrite actions : Nat} {own : Multiset (Block ExecBlock)}

theorem readArgv_triple (copies : Copies) (n : Nat) :
    Triple copies.blocks (readArgv (copies.ptrs ++ .null :: List.replicate n .unset))
      (fun cells own => cells = copies.cells ++ .null :: List.replicate n .unset ∧
        own = copies.blocks) := by
  induction copies with
  | nil =>
    have hunset (n : Nat) : Triple (α := ExecBlock) 0 (readArgv (List.replicate n .unset))
        (fun cells own => cells = List.replicate n .unset ∧ own = 0) := by
      induction n with
      | zero => exact .pure ⟨rfl, rfl⟩
      | succ n ih =>
        refine ih.bind ?_
        rintro _ _ ⟨rfl, rfl⟩
        exact .pure ⟨rfl, rfl⟩
    refine (hunset n).bind ?_
    rintro _ _ ⟨rfl, rfl⟩
    exact .pure ⟨rfl, rfl⟩
  | cons c copies ih =>
    have hblocks : Copies.blocks (c :: copies) = {(c.1, .string c.2)} + Copies.blocks copies := rfl
    rw [hblocks]
    refine load_triple.step rfl ?_
    rintro _ _ ⟨rfl, rfl⟩
    rw [add_comm]
    refine ih.step rfl ?_
    rintro _ _ ⟨rfl, rfl⟩
    exact .pure ⟨rfl, rfl⟩

theorem freeArgv_triple (copies : Copies) :
    Triple copies.blocks (freeArgv copies.ptrs) (fun _ own => own = 0) := by
  induction copies with
  | nil => exact .pure rfl
  | cons c copies ih =>
    exact Triple.free_step (x := ExecBlock.string c.2) (r := Copies.blocks copies) rfl ih

theorem spawnAndWait_triple (copies : Copies) (n : Nat) :
    Triple ({(exec, ExecBlock.string cmd)} + {(pipeRead, .pipeRead)} + {(pipeWrite, .pipeWrite)} +
        {(actions, .fileActions)} + copies.blocks)
      (spawnAndWait exec pipeRead pipeWrite actions
        (copies.ptrs ++ .null :: List.replicate n .unset) copies.length)
      (fun cells own => cells = copies.cells ++ .null :: List.replicate n .unset ∧ own = 0) := by
  refine Triple.free_step (x := ExecBlock.string cmd)
    (r := {(pipeRead, .pipeRead)} + {(pipeWrite, .pipeWrite)} + {(actions, .fileActions)} +
      copies.blocks) (by abel) ?_
  refine Triple.load_mem (x := ExecBlock.fileActions) (by simp) ?_
  refine (readArgv_triple copies n).step
    (r := {(pipeRead, .pipeRead)} + {(pipeWrite, .pipeWrite)} + {(actions, .fileActions)})
    (by abel) ?_
  rintro _ _ ⟨rfl, rfl⟩
  refine Triple.free_step (x := ExecBlock.pipeWrite)
    (r := {(pipeRead, .pipeRead)} + {(actions, .fileActions)} + copies.blocks) (by abel) ?_
  refine Triple.load_mem (x := ExecBlock.pipeRead) (by simp) ?_
  refine Triple.free_step (x := ExecBlock.pipeRead)
    (r := {(actions, .fileActions)} + copies.blocks) (by abel) ?_
  refine Triple.free_step (x := ExecBlock.fileActions) (r := copies.blocks) rfl ?_
  have htake : (copies.ptrs ++ ArgvPtr.null :: List.replicate n .unset).take copies.length =
      copies.ptrs := List.take_left' (List.length_map _)
  rw [htake]
  refine (freeArgv_triple copies).bind ?_
  rintro _ _ rfl
  exact .pure ⟨rfl, rfl⟩

theorem runExecMem_triple (homeDir : Option Bytes) (cmd : Bytes) :
    Triple 0 (runExecMem homeDir cmd)
      (fun r own => r = execArgv homeDir cmd ∧ (r.isOk → own = 0)) := by
  refine (malloc_triple (ExecBlock.string cmd)).bind ?_
  rintro exec _ rfl
  refine (malloc_triple ExecBlock.pipeRead).fresh ?_
  rintro pipeRead _ rfl
  refine (malloc_triple ExecBlock.pipeWrite).fresh ?_
  rintro pipeWrite _ rfl
  refine (malloc_triple ExecBlock.fileActions).fresh ?_
  rintro actions _ rfl
  have hloop := argLoopMem_triple exec cmd homeDir 9 cmd [] rfl
  refine hloop.step (r := {(pipeRead, .pipeRead)} + {(pipeWrite, .pipeWrite)} +
    {(actions, .fileActions)}) ?_ ?_
  · simp only [Copies.blocks, List.map_nil, Multiset.coe_nil]
    abel
  · intro out own hown
    have hresult : argLoop homeDir cmd 0 (List.replicate 10 .unset) = execArgv homeDir cmd := rfl
    simp only [List.length_nil, Copies.cells, List.map_nil, List.nil_append, hresult] at hown
    cases hargv : execArgv homeDir cmd with
    | error f =>
      rw [hargv] at hown
      obtain rfl : out = .error f := hown
      exact .pure ⟨rfl, by simp [Except.isOk, Except.toBool]⟩
    | ok argv =>
      rw [hargv] at hown
      obtain ⟨copies, n, rfl, rfl, rfl⟩ := hown
      refine (spawnAndWait_triple copies n).step (r := 0) (by abel) ?_
      rintro _ _ ⟨rfl, rfl⟩
      exact .pure ⟨rfl, fun _ => rfl⟩

end Loop

/-- Whatever is in memory before a call of run_exec, for every command and home directory:
posix_spawnp is given live copies of the words that `execArgv` says and nothing freed is used; and
unless the call faults where `execArgv` does, afterwards memory and descriptors are as before it,
every copy freed once and both ends of the pipe closed. -/
theorem runExec_resources (homeDir : Option Bytes) (cmd : Bytes) (h : Heap ExecBlock) :
    ∃ h', (runExecMem homeDir cmd).run h = .ok (execArgv homeDir cmd, h') ∧
      ((execArgv homeDir cmd).isOk → h'.contents = h.contents) := by
  obtain ⟨r, h', own, hrun, ⟨rfl, hown⟩, hcontents⟩ :=
    runExecMem_triple homeDir cmd h.contents h (zero_add _).symm
  refine ⟨h', hrun, ?_⟩
  intro hok
  rw [hcontents, hown hok, zero_add]

end Slstatus
