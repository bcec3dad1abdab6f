import Slstatus.BlockWait
import Slstatus.KeyboardIndicators
import Slstatus.Keymap
import Slstatus.Lib.Alloc
import Slstatus.LineScan
import Slstatus.RunCommand

/-! The functions that open something and close it before they return: files, pipes, directories
and the display. `get_swap_info` and `get_io` do not close the file that they could not read. -/

namespace Slstatus

open Alloc

inductive Handle
  | file | line | pipe | dir | addrs | display | keyboard | symbols | device | swapents | kvm
  deriving DecidableEq

/-- `pscanf` without the variables that its format assigns. -/
def pscanfMem {β : Type} (vfscanf : Bytes → β) (file : Option Bytes) : Prog Handle (Option β) :=
  match file with
  | none => return none
  | some content => do
    let fp ← malloc .file
    let _ ← load fp
    free (some fp)
    return some (vfscanf content)

/-- `getline(&line, &line_len, fp)`, where the line moves with every call. -/
def getlineMem (fp : Nat) (line : Option Nat) : Prog Handle Nat := do
  let _ ← load fp
  free line
  malloc .line

section Info

variable {α : Type} (conv : Int → α) (ents : List Ent)

def readLinesMem (fp : Nat) : List Bytes → InfoState α → Option Nat →
    Prog Handle (Except Fault (InfoState α) × Option Nat)
  | [], st, line =>
    if st.left = 0 then return (.ok st, line)
    else do
      let line ← getlineMem fp line
      return (.ok { st with ended := true }, some line)
  | text :: lines, st, line =>
    if st.left = 0 then return (.ok st, line)
    else do
      let line ← getlineMem fp line
      let _ ← load line
      let st := { st with ended := st.ended || !decide (Lines.Terminated text) }
      match matchEnt ents text with
      | none => readLinesMem fp lines st (some line)
      | some e =>
        let vars := storeField conv e text st.vars
        if text.length ≤ e.name.length then return (.error .outOfBounds, some line)
        else readLinesMem fp lines { st with left := st.left - 1, vars := vars } (some line)

def getInfoMem (file : Option File) : Prog Handle (Except Fault (Int × (Bytes → Option α))) :=
  match file with
  | none => return .ok (1, fun _ => none)
  | some f => do
    let fp ← malloc .file
    let (st, line) ← readLinesMem conv ents fp (Lines.getLines f.content)
      ⟨(requested ents).length, fun _ => none, false⟩ none
    match st with
    | .error fault => return .error fault
    | .ok st => do
      free line
      let _ ← load fp
      if st.ended && f.error then return .ok (1, st.vars)
      else do
        free (some fp)
        return .ok (0, st.vars)

/-- The file stays open if it was opened and the function fails. -/
def infoLeaks (file : Option File) : Multiset Handle :=
  match file, getInfo conv ents file with
  | some _, .ok (ret, _) => if ret = 0 then 0 else {.file}
  | _, _ => 0

end Info

def getSwapInfoMem (sTotal sFree sCached : Bool) (meminfo : Option File) :=
  getInfoMem toLong (swapEnts sTotal sFree sCached) meminfo

def getIoMem (sIn sOut : Bool) (vmstat : Option File) :=
  getInfoMem toUintmax (ioEnts sIn sOut) vmstat

/-- `lscanf(...) != 1 || ...` -/
def lscanfAll (fp : Nat) (f : File) : List Bytes → Prog Handle (Option (List UInt64))
  | [] => return some []
  | key :: keys => do
    let _ ← load fp
    match lscanf f key with
    | none => return none
    | some n => do
      let rest ← lscanfAll fp f keys
      return rest.map (n :: ·)

/-- What `ram_free`, `ram_perc`, `ram_total` and `ram_used` do with /proc/meminfo, each with the
keys that it looks for. -/
def ramMem (keys : List Bytes) (meminfo : Option File) : Prog Handle (Option (List UInt64)) :=
  match meminfo with
  | none => return none
  | some f => do
    let fp ← malloc .file
    match ← lscanfAll fp f keys with
    | none => do
      free (some fp)
      return none
    | some values => do
      free (some fp)
      return some values

def walkEntryMem (sys : SysBlock) (name : Bytes) (newwait : UInt64) :
    Prog Handle (Except Fault UInt64) :=
  if strstr (lit "loop") name || strstr (lit "ram") name then return .ok newwait
  else if name = lit "." ∨ name = lit ".." then return .ok newwait
  else
    match virtPath name with
    | .error f => return .error f
    | .ok virtpath =>
      if sys.readable virtpath then return .ok newwait
      else
        match statPath name with
        | .error f => return .error f
        | .ok statpath => do
          let partwait ← pscanfMem (fun s => pscanfWait (some s)) (sys.stat statpath)
          match partwait.join with
          | none => return .ok newwait
          | some partwait => return .ok (newwait + partwait)

def walkEntriesMem (bd : Nat) (sys : SysBlock) : List Bytes → UInt64 →
    Prog Handle (Except Fault UInt64)
  | [], newwait => do
    let _ ← load bd
    return .ok newwait
  | name :: names, newwait => do
    let _ ← load bd
    match ← walkEntryMem sys name newwait with
    | .error f => return .error f
    | .ok newwait => walkEntriesMem bd sys names newwait

def ioPercMem (interval : UInt32) (sys : Option SysBlock) (oldwait : UInt64) :
    Prog Handle (Except Fault (Reading × UInt64)) :=
  match sys with
  | none => return .ok (ioPerc interval none oldwait)
  | some sys => do
    let bd ← malloc .dir
    match ← walkEntriesMem bd sys sys.listing 0 with
    | .error f => return .error f
    | .ok newwait => do
      free (some bd)
      return .ok (ioPerc interval (some newwait) oldwait)

/-- `cat`, which is `run_command` on a file. -/
def cat := runCommand

/-- The common body of `cat` and `run_command`. `fclose` and `pclose` release the stream where they
fail as well. -/
def firstLineMem (kind : Handle) (output : Option Bytes) (closeFails : Bool) (buf : Buf) :
    Prog Handle (Except Fault (Option Bytes)) :=
  match output with
  | none => return .ok none
  | some output => do
    let fp ← malloc kind
    let _ ← load fp
    free (some fp)
    return runCommand (some output) closeFails buf

def catMem := firstLineMem .file

def runCommandMem := firstLineMem .pipe

/-- The entries that are counted; `num` is an `int`. -/
def countFiles : List Bytes → Nat → Except Fault Nat
  | [], num => .ok num
  | name :: names, num =>
    if name = lit "." ∨ name = lit ".." then countFiles names num
    else if num + 1 < 2 ^ 31 then countFiles names (num + 1)
    else .error .overflow

def numFiles (dir : Option (List Bytes)) : Except Fault (Option Bytes) :=
  match dir with
  | none => .ok none
  | some names => (countFiles names 0).map (fun num => bprintf (decimal num))

def countFilesMem (dir : Nat) : List Bytes → Nat → Prog Handle (Except Fault Nat)
  | [], num => do
    let _ ← load dir
    return .ok num
  | name :: names, num => do
    let _ ← load dir
    if name = lit "." ∨ name = lit ".." then countFilesMem dir names num
    else if num + 1 < 2 ^ 31 then countFilesMem dir names (num + 1)
    else return .error .overflow

def numFilesMem (dir : Option (List Bytes)) : Prog Handle (Except Fault (Option Bytes)) :=
  match dir with
  | none => return .ok none
  | some names => do
    let dir ← malloc .dir
    match ← countFilesMem dir names 0 with
    | .error f => return .error f
    | .ok num => do
      free (some dir)
      return .ok (bprintf (decimal num))

/-- The outcome, and what is left open unless it is a fault. -/
structure Leaves {ε β : Type} (result : Except ε β) (leaks : Multiset Handle)
    (out : Except ε β) (own : Multiset (Block Handle)) : Prop where
  out_eq : out = result
  left : ∀ b, result = .ok b → own.map Prod.snd = leaks

section Triples

theorem pscanfMem_triple {β : Type} (vfscanf : Bytes → β) (file : Option Bytes) :
    Triple 0 (pscanfMem vfscanf file) (fun out own => out = file.map vfscanf ∧ own = 0) := by
  cases file with
  | none => exact .pure ⟨rfl, rfl⟩
  | some content =>
    apply Triple.malloc_bind
    intro fp
    apply Triple.load_bind
    apply Triple.free_bind
    exact .pure ⟨rfl, rfl⟩

theorem getlineMem_triple (fp : Nat) (line : Option Nat) :
    Triple ({(fp, Handle.file)} + owned .line line) (getlineMem fp line)
      (fun line own => own = {(line, Handle.line)} + {(fp, Handle.file)}) := by
  apply Triple.load_bind
  rw [add_comm]
  apply Triple.free_owned
  rw [← zero_add ({(fp, Handle.file)} : Multiset _)]
  apply ((malloc_triple Handle.line).frame _).mono
  rintro line _ ⟨_, rfl, rfl⟩
  rw [zero_add]

section Info

variable {α : Type} {conv : Int → α} {ents : List Ent}

theorem readLinesMem_triple (fp : Nat) (lines : List Bytes) (st : InfoState α) (line : Option Nat) :
    Triple ({(fp, Handle.file)} + owned .line line) (readLinesMem conv ents fp lines st line)
      (fun out own => out.1 = readLines conv ents lines st ∧
        own = {(fp, Handle.file)} + owned .line out.2) := by
  induction lines generalizing st line with
  | nil =>
    by_cases hleft : st.left = 0
    · simp only [readLinesMem, readLines, if_pos hleft]
      exact .pure ⟨rfl, rfl⟩
    · simp only [readLinesMem, readLines, if_neg hleft]
      apply (getlineMem_triple fp line).bind
      rintro line' _ rfl
      exact .pure ⟨rfl, add_comm _ _⟩
  | cons text lines ih =>
    by_cases hleft : st.left = 0
    · simp only [readLinesMem, readLines, if_pos hleft]
      exact .pure ⟨rfl, rfl⟩
    · simp only [readLinesMem, readLines, if_neg hleft]
      apply (getlineMem_triple fp line).bind
      rintro line' _ rfl
      apply Triple.load_bind
      have hnext (st : InfoState α) := ih st (some line')
      rw [owned, add_comm] at hnext
      cases hent : matchEnt ents text with
      | none =>
        simp only
        exact hnext _
      | some e =>
        by_cases hlen : text.length ≤ e.name.length
        · simp only [if_pos hlen]
          exact .pure ⟨rfl, add_comm _ _⟩
        · simp only [if_neg hlen]
          exact hnext _

theorem getInfoMem_triple (file : Option File) :
    Triple 0 (getInfoMem conv ents file) (Leaves (getInfo conv ents file) (infoLeaks conv ents file)) := by
  cases file with
  | none => exact .pure ⟨rfl, fun _ _ => rfl⟩
  | some f =>
    apply Triple.malloc_bind
    intro fp
    apply (readLinesMem_triple fp _ _ none).bind
    rintro ⟨st, line⟩ _ ⟨hst, rfl⟩
    simp only at hst
    subst hst
    cases hread : readLines conv ents (Lines.getLines f.content)
        ⟨(requested ents).length, fun _ => none, false⟩ with
    | error fault =>
      have hinfo : getInfo conv ents (some f) = .error fault := by simp only [getInfo, hread, Except.map]
      rw [hinfo]
      exact .pure ⟨rfl, by simp⟩
    | ok st =>
      have hinfo : getInfo conv ents (some f) =
          .ok (if st.ended && f.error then 1 else 0, st.vars) := by
        simp only [getInfo, hread, Except.map]
      rw [hinfo, add_comm]
      apply Triple.free_owned
      rw [← add_zero ({(fp, Handle.file)} : Multiset _)]
      apply Triple.load_bind
      by_cases herror : (st.ended && f.error) = true
      · simp only [herror, if_true, infoLeaks, hinfo]
        exact .pure ⟨rfl, fun _ _ => rfl⟩
      · simp only [herror, infoLeaks, hinfo]
        apply Triple.free_bind
        exact .pure ⟨rfl, fun _ _ => rfl⟩

end Info

theorem lscanfAll_triple (fp : Nat) (f : File) (keys : List Bytes) :
    Triple ({(fp, Handle.file)} + 0) (lscanfAll fp f keys)
      (fun out own => out = keys.mapM (lscanf f) ∧ own = {(fp, Handle.file)} + 0) := by
  induction keys with
  | nil => exact .pure ⟨rfl, rfl⟩
  | cons key keys ih =>
    apply Triple.load_bind
    cases hkey : lscanf f key with
    | none =>
      simp only
      exact .pure ⟨by simp [hkey], rfl⟩
    | some n =>
      simp only
      apply ih.bind
      rintro _ _ ⟨rfl, rfl⟩
      refine .pure ⟨?_, rfl⟩
      cases hrest : keys.mapM (lscanf f) <;> simp [hkey, hrest]

theorem ramMem_triple (keys : List Bytes) (meminfo : Option File) :
    Triple 0 (ramMem keys meminfo)
      (fun out own => out = meminfo.bind (fun f => keys.mapM (lscanf f)) ∧ own = 0) := by
  cases meminfo with
  | none => exact .pure ⟨rfl, rfl⟩
  | some f =>
    apply Triple.malloc_bind
    intro fp
    apply (lscanfAll_triple fp f keys).bind
    rintro _ _ ⟨rfl, rfl⟩
    cases hvalues : keys.mapM (lscanf f) with
    | none =>
      apply Triple.free_bind
      exact .pure ⟨hvalues.symm, rfl⟩
    | some values =>
      apply Triple.free_bind
      exact .pure ⟨hvalues.symm, rfl⟩

theorem walkEntryMem_triple (sys : SysBlock) (name : Bytes) (newwait : UInt64) :
    Triple 0 (walkEntryMem sys name newwait)
      (fun out own => out = walkEntry sys name newwait ∧ own = 0) := by
  unfold walkEntryMem walkEntry
  by_cases hnamed : (strstr (lit "loop") name || strstr (lit "ram") name) = true
  · rw [if_pos hnamed, if_pos hnamed]
    exact .pure ⟨rfl, rfl⟩
  rw [if_neg hnamed, if_neg hnamed]
  by_cases hdots : name = lit "." ∨ name = lit ".."
  · rw [if_pos hdots, if_pos hdots]
    exact .pure ⟨rfl, rfl⟩
  rw [if_neg hdots, if_neg hdots]
  cases hvirt : virtPath name with
  | error f => exact .pure ⟨rfl, rfl⟩
  | ok virtpath =>
  simp only [bind, Except.bind]
  by_cases hreadable : sys.readable virtpath = true
  · rw [if_pos hreadable, if_pos hreadable]
    exact .pure ⟨rfl, rfl⟩
  rw [if_neg hreadable, if_neg hreadable]
  cases hstat : statPath name with
  | error f => exact .pure ⟨rfl, rfl⟩
  | ok statpath =>
  apply (pscanfMem_triple _ (sys.stat statpath)).bind
  rintro partwait _ ⟨rfl, rfl⟩
  have hjoin : ((sys.stat statpath).map (fun s => pscanfWait (some s))).join =
      pscanfWait (sys.stat statpath) := by cases sys.stat statpath <;> rfl
  rw [hjoin]
  simp only
  cases pscanfWait (sys.stat statpath) with
  | none => exact .pure ⟨rfl, rfl⟩
  | some partwait => exact .pure ⟨rfl, rfl⟩

theorem walkEntriesMem_triple (bd : Nat) (sys : SysBlock) (names : List Bytes) (newwait : UInt64) :
    Triple ({(bd, Handle.dir)} + 0) (walkEntriesMem bd sys names newwait)
      (fun out own => out = walkEntries sys names newwait ∧ own = {(bd, Handle.dir)} + 0) := by
  induction names generalizing newwait with
  | nil =>
    apply Triple.load_bind
    exact .pure ⟨rfl, rfl⟩
  | cons name names ih =>
    apply Triple.load_bind
    apply (walkEntryMem_triple sys name newwait).fresh
    rintro _ _ ⟨rfl, rfl⟩
    rw [zero_add]
    cases hentry : walkEntry sys name newwait with
    | error f =>
      simp only [walkEntries, hentry]
      exact .pure ⟨rfl, rfl⟩
    | ok newwait =>
      simp only [walkEntries, hentry]
      exact ih newwait

theorem ioPercMem_triple (interval : UInt32) (sys : Option SysBlock) (oldwait : UInt64) :
    Triple 0 (ioPercMem interval sys oldwait) (Leaves (ioPercCall interval sys oldwait) 0) := by
  cases sys with
  | none => exact .pure ⟨rfl, fun _ _ => rfl⟩
  | some sys =>
    apply Triple.malloc_bind
    intro bd
    apply (walkEntriesMem_triple bd sys sys.listing 0).bind
    rintro _ _ ⟨rfl, rfl⟩
    cases hwalk : walkEntries sys sys.listing 0 with
    | error f =>
      have hcall : ioPercCall interval (some sys) oldwait = .error f := by
        simp only [ioPercCall, hwalk, Except.map]
      rw [hcall]
      exact .pure ⟨rfl, by simp⟩
    | ok newwait =>
      have hcall : ioPercCall interval (some sys) oldwait = .ok (ioPerc interval (some newwait) oldwait) := by
        simp only [ioPercCall, hwalk, Except.map]
      rw [hcall]
      apply Triple.free_bind
      exact .pure ⟨rfl, fun _ _ => rfl⟩

theorem firstLineMem_triple (kind : Handle) (output : Option Bytes) (closeFails : Bool) (buf : Buf) :
    Triple 0 (firstLineMem kind output closeFails buf) (Leaves (runCommand output closeFails buf) 0) := by
  cases output with
  | none => exact .pure ⟨rfl, fun _ _ => rfl⟩
  | some output =>
    apply Triple.malloc_bind
    intro fp
    apply Triple.load_bind
    apply Triple.free_bind
    exact .pure ⟨rfl, fun _ _ => rfl⟩

theorem countFilesMem_triple (dir : Nat) (names : List Bytes) (num : Nat) :
    Triple ({(dir, Handle.dir)} + 0) (countFilesMem dir names num)
      (fun out own => out = countFiles names num ∧ own = {(dir, Handle.dir)} + 0) := by
  induction names generalizing num with
  | nil =>
    apply Triple.load_bind
    exact .pure ⟨rfl, rfl⟩
  | cons name names ih =>
    apply Triple.load_bind
    rw [countFiles]
    split_ifs
    · exact ih num
    · exact ih (num + 1)
    · exact .pure ⟨rfl, rfl⟩

theorem numFilesMem_triple (dir : Option (List Bytes)) :
    Triple 0 (numFilesMem dir) (Leaves (numFiles dir) 0) := by
  cases dir with
  | none => exact .pure ⟨rfl, fun _ _ => rfl⟩
  | some names =>
    apply Triple.malloc_bind
    intro dir
    apply (countFilesMem_triple dir names 0).bind
    rintro _ _ ⟨rfl, rfl⟩
    cases hnum : countFiles names 0 with
    | error f =>
      simp only [numFiles, hnum, Except.map]
      exact .pure ⟨rfl, by simp⟩
    | ok num =>
      simp only [numFiles, hnum, Except.map]
      apply Triple.free_bind
      exact .pure ⟨rfl, fun _ _ => rfl⟩

end Triples

end Slstatus
