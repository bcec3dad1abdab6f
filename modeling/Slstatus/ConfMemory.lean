import Mathlib.Tactic.Abel
import Slstatus.Lib.Alloc
import Slstatus.ConfDocument
import Slstatus.ConfPath

/-! The strings and the module table that conf.c allocates. The globals hold pointers, and
what they point to is the configuration that `loadConfig` computes; `cleanup_config` frees
all of it. Allocation succeeds. -/

namespace Slstatus

open Alloc

/-- `struct arg` with its pointers. -/
structure ArgPtrs where
  func : Option Func
  fmt : Option Nat
  args : Option Nat
  statusNo : Option Nat
  updateInterval : UInt32

/-- What `calloc` leaves of one. -/
def ArgPtrs.zero : ArgPtrs := ⟨none, none, none, none, 0⟩

inductive Cell
  | string (s : Bytes)
  | modules (ms : List ArgPtrs)

structure ConfPtrs where
  interval : UInt32 := 1000
  maximumStatusLength : Int32 := 2048
  unknownString : Option Nat := none
  numModules : Nat := 0
  modules : Option Nat := none
  mpdTitleLength : Int32 := 20
  mpdLoopText : Option Nat := none
  mpdOnTextFits : OnTextFits := .noScroll

def strdup (s : Bytes) : Prog Cell Nat := malloc (.string s)

def readString (p : Nat) : Prog Cell Bytes := do
  match ← load p with
  | .string s => return s
  | .modules _ => throw .badAccess

def readModules (p : Nat) : Prog Cell (List ArgPtrs) := do
  match ← load p with
  | .modules ms => return ms
  | .string _ => throw .badAccess

/-- `config_lookup_strdup` and `config_setting_lookup_strdup`, with what the lookup finds. -/
def lookupStrdup (found : Option Bytes) (strptr : Option Nat) : Prog Cell (Bool × Option Nat) :=
  match found with
  | none => return (false, strptr)
  | some s => do
    free strptr
    let p ← strdup s
    return (true, some p)

def strdupNotNull (s : Option Bytes) : Prog Cell (Option Nat) :=
  match s with
  | none => return none
  | some s => do
    let p ← strdup s
    return some p

/-- A field of a module: the string that is found, or a copy of the default, NULL for none. -/
def lookupField (found default : Option Bytes) (strptr : Option Nat) : Prog Cell (Option Nat) := do
  let (found, p) ← lookupStrdup found strptr
  if found then return p else strdupNotNull default

variable {S : Type} (lib : Libconfig S) (haveMpd : Bool)

/-- The body of the loop of `load_modules`. -/
def loadModuleAt (array i : Nat) (t : S) : Prog Cell Unit := do
  let ms ← readModules array
  let m := ms.getD i .zero
  let func := ((lib.lookupString t "function").map (parseFunction haveMpd)).or m.func
  let fmt ← lookupField (lib.lookupString t "format") (some (lit "%s")) m.fmt
  let args ← lookupField (lib.lookupString t "argument") none m.args
  let statusNo ← lookupField (lib.lookupString t "status_no") none m.statusNo
  let updateInterval := (getUnsignedInt lib (lib.lookup t "update_interval")).getD 1
  store array (.modules (ms.set i ⟨func, fmt, args, statusNo, updateInterval⟩))

/-- `for (i = 0; i < num_modules; i++)` over the elements of the module table. -/
def fillFrom {β : Type} (body : Nat → β → Prog Cell Unit) (i : Nat) : List β → Prog Cell Unit
  | [] => return
  | t :: ts => do
    body i t
    fillFrom body (i + 1) ts

def loadModulesMem (doc : S) (g : ConfPtrs) : Prog Cell ConfPtrs :=
  match lib.lookup doc "modules" with
  | none => return g
  | some modulesT =>
    if lib.isList modulesT then
      let g := { g with numModules := (lib.elems modulesT).length }
      if g.numModules = 0 then return g
      else do
        let array ← malloc (.modules (List.replicate g.numModules .zero))
        fillFrom (loadModuleAt lib haveMpd array) 0 (lib.elems modulesT)
        return { g with modules := some array }
    else return g

def loadMpdonairMem (doc : S) (g : ConfPtrs) : Prog Cell ConfPtrs := do
  let g := { g with mpdTitleLength := (lib.lookupInt doc "mpd.title_length").getD g.mpdTitleLength }
  let (_, mpdLoopText) ← lookupStrdup (lib.lookupString doc "mpd.loop_text") g.mpdLoopText
  return { g with
    mpdLoopText
    mpdOnTextFits := ((lib.lookupString doc "mpd.on_text_fits").map parseMpdOnTextFits).getD
      g.mpdOnTextFits }

def copyArgAt (array i : Nat) (a : Arg) : Prog Cell Unit := do
  let ms ← readModules array
  let fmt ← strdupNotNull a.fmt
  let args ← strdupNotNull a.args
  let statusNo ← strdupNotNull a.statusNo
  store array (.modules (ms.set i ⟨a.func, fmt, args, statusNo, a.updateInterval⟩))

/-- The `HAVE_MPD` part of `load_fallback_config`. -/
def fallbackLoopText (g : ConfPtrs) : Prog Cell ConfPtrs :=
  if haveMpd ∧ g.mpdLoopText = none then do
    let p ← strdup (lit " ~ ")
    return { g with mpdLoopText := some p }
  else return g

def fallbackModules (g : ConfPtrs) : Prog Cell ConfPtrs :=
  match g.modules with
  | some _ => return g
  | none => do
    let array ← malloc (.modules (List.replicate defaultArgs.length .zero))
    fillFrom (copyArgAt array) 0 defaultArgs
    return { g with numModules := defaultArgs.length, modules := some array }

def loadFallbackConfigMem (g : ConfPtrs) : Prog Cell ConfPtrs := do
  let g ← fallbackLoopText haveMpd g
  fallbackModules g

/-- The branch of `load_config` for a document that libconfig has read. -/
def loadDocumentMem (doc : S) : Prog Cell ConfPtrs := do
  let g : ConfPtrs := {}
  let (_, unknownString) ← lookupStrdup (lib.lookupString doc "unknown_string") g.unknownString
  let g := { g with
    interval := (getUnsignedInt lib (lib.lookup doc "interval")).getD g.interval
    maximumStatusLength := (lib.lookupInt doc "maximum_length").getD g.maximumStatusLength
    unknownString }
  let g ← loadModulesMem lib haveMpd doc g
  if haveMpd then loadMpdonairMem lib doc g else return g

def readConfigMem (doc : Option S) : Prog Cell ConfPtrs :=
  match doc with
  | none => return {}
  | some doc => loadDocumentMem lib haveMpd doc

def readPath : Option Nat → Prog Cell (Option Bytes)
  | none => return none
  | some p => some <$> readString p

/-- `read` is what libconfig makes of the file and the directory for includes, `none` where
it finds no file or rejects it. -/
def loadConfigMem (env : Environment) (read : Option Bytes → Bytes → Option S) :
    Prog Cell ConfPtrs := do
  let configFile ← strdupNotNull (getConfigPath env (some cfgFilename))
  let path ← readPath configFile
  let configPath ← strdup (pathDirname path)
  let dir ← readString configPath
  let g ← readConfigMem lib haveMpd (read path dir)
  free configFile
  free (some configPath)
  loadFallbackConfigMem haveMpd g

def freeModulesFrom (array i : Nat) : Nat → Prog Cell Unit
  | 0 => return
  | n + 1 => do
    let ms ← readModules array
    match ms[i]? with
    | none => throw .badAccess
    | some m => do
      free m.fmt
      free m.args
      free m.statusNo
      freeModulesFrom array (i + 1) n

/-- The loop of `cleanup_config` over `modules[i]`, for which `modules` must not be NULL. -/
def freeModules (g : ConfPtrs) : Prog Cell Unit :=
  match g.modules with
  | none => if g.numModules = 0 then return else throw .badAccess
  | some array => freeModulesFrom array 0 g.numModules

def cleanupConfig (g : ConfPtrs) : Prog Cell Unit := do
  free g.unknownString
  freeModules g
  free g.modules
  if haveMpd then free g.mpdLoopText

/-- The pointer is to a string of its own, or NULL. -/
inductive OwnsString : Option Nat → Option Bytes → Multiset (Block Cell) → Prop
  | null : OwnsString none none 0
  | block (p : Nat) (s : Bytes) : OwnsString (some p) (some s) {(p, .string s)}

structure OwnsArg (m : ArgPtrs) (a : Arg) (own : Multiset (Block Cell)) : Prop where
  func : m.func = a.func
  updateInterval : m.updateInterval = a.updateInterval
  strings : ∃ b₁ b₂ b₃, OwnsString m.fmt a.fmt b₁ ∧ OwnsString m.args a.args b₂ ∧
    OwnsString m.statusNo a.statusNo b₃ ∧ own = b₁ + b₂ + b₃

inductive OwnsArgs : List ArgPtrs → List Arg → Multiset (Block Cell) → Prop
  | nil : OwnsArgs [] [] 0
  | cons {m : ArgPtrs} {a : Arg} {ms : List ArgPtrs} {as : List Arg}
      {b bs : Multiset (Block Cell)} (head : OwnsArg m a b) (tail : OwnsArgs ms as bs) :
      OwnsArgs (m :: ms) (a :: as) (b + bs)

inductive OwnsModules : Option Nat → Option (List Arg) → Multiset (Block Cell) → Prop
  | null : OwnsModules none none 0
  | array (p : Nat) {ms : List ArgPtrs} {as : List Arg} {own : Multiset (Block Cell)}
      (h : OwnsArgs ms as own) : OwnsModules (some p) (some as) ({(p, .modules ms)} + own)

/-- The globals are those of `c`, with each string and the table in blocks of their own. -/
structure Owns (g : ConfPtrs) (c : Config) (own : Multiset (Block Cell)) : Prop where
  interval : g.interval = c.interval
  maximumStatusLength : g.maximumStatusLength = c.maximumStatusLength
  numModules : g.numModules = c.numModules
  mpdTitleLength : g.mpdTitleLength = c.mpdTitleLength
  mpdOnTextFits : g.mpdOnTextFits = c.mpdOnTextFits
  memory : ∃ b₁ b₂ b₃, OwnsString g.unknownString c.unknownString b₁ ∧
    OwnsModules g.modules c.modules b₂ ∧ OwnsString g.mpdLoopText c.mpdLoopText b₃ ∧
    own = b₁ + b₂ + b₃

section Strings

variable {p : Option Nat} {q : Nat} {s : Option Bytes} {own : Multiset (Block Cell)}

theorem strdup_triple (s : Bytes) : Triple 0 (strdup s) (fun p own => own = {(p, .string s)}) :=
  malloc_triple _

theorem readString_triple {s : Bytes} :
    Triple {(q, Cell.string s)} (readString q) (fun s' own => s' = s ∧ own = {(q, .string s)}) := by
  refine load_triple.bind ?_
  rintro _ _ ⟨rfl, rfl⟩
  exact .pure ⟨rfl, rfl⟩

theorem readModules_triple {ms : List ArgPtrs} :
    Triple {(q, Cell.modules ms)} (readModules q)
      (fun ms' own => ms' = ms ∧ own = {(q, .modules ms)}) := by
  refine load_triple.bind ?_
  rintro _ _ ⟨rfl, rfl⟩
  exact .pure ⟨rfl, rfl⟩

theorem OwnsString.free (h : OwnsString p s own) : Triple own (Alloc.free p) (fun _ own => own = 0) := by
  cases h with
  | null => exact free_null
  | block p s => exact free_triple

theorem lookupStrdup_triple (found : Option Bytes) (h : OwnsString p s own) :
    Triple own (lookupStrdup found p)
      (fun r own => r.1 = found.isSome ∧ OwnsString r.2 (found.or s) own) := by
  cases found with
  | none => exact .pure ⟨rfl, h⟩
  | some s' =>
    refine h.free.bind ?_
    rintro _ _ rfl
    refine (strdup_triple s').bind ?_
    rintro p' _ rfl
    exact .pure ⟨rfl, .block p' s'⟩

theorem strdupNotNull_triple (s : Option Bytes) :
    Triple 0 (strdupNotNull s) (fun p own => OwnsString p s own) := by
  cases s with
  | none => exact .pure .null
  | some s =>
    refine (strdup_triple s).bind ?_
    rintro p _ rfl
    exact .pure (.block p s)

theorem lookupField_triple (found default : Option Bytes) :
    Triple 0 (lookupField found default none) (fun p own => OwnsString p (found.or default) own) := by
  refine (lookupStrdup_triple found .null).bind ?_
  rintro ⟨ok, p⟩ own ⟨hok, hp⟩
  obtain rfl : ok = found.isSome := hok
  cases found with
  | some s => exact .pure hp
  | none =>
    cases hp
    exact strdupNotNull_triple default

end Strings

section Table

variable {lib haveMpd} {array i : Nat} {ms : List ArgPtrs} {own : Multiset (Block Cell)}

/-- What a body of a loop over the table does to its own element. -/
def FillsElement {β : Type} (array : Nat) (body : Nat → β → Prog Cell Unit) (f : β → Arg) : Prop :=
  ∀ ms i t, ms.getD i .zero = .zero → Triple {(array, Cell.modules ms)} (body i t)
    (fun _ own => ∃ m b, OwnsArg m (f t) b ∧ own = {(array, .modules (ms.set i m))} + b)

theorem loadModuleAt_fills :
    FillsElement array (loadModuleAt lib haveMpd array) (loadModule lib haveMpd) := by
  intro ms i t hzero
  refine readModules_triple.bind ?_
  rintro ms _ ⟨rfl, rfl⟩
  simp only [hzero]
  refine (lookupField_triple (lib.lookupString t "format") (some (lit "%s"))).fresh ?_
  intro fmt b₁ hfmt
  refine (lookupField_triple (lib.lookupString t "argument") none).fresh ?_
  intro args b₂ hargs
  refine (lookupField_triple (lib.lookupString t "status_no") none).fresh ?_
  intro statusNo b₃ hstatusNo
  have hall : b₃ + (b₂ + (b₁ + {(array, Cell.modules ms)})) =
      {(array, .modules ms)} + (b₁ + b₂ + b₃) := by abel
  rw [hall]
  refine (store_triple.frame (b₁ + b₂ + b₃)).mono ?_
  rintro _ _ ⟨_, rfl, rfl⟩
  refine ⟨_, b₁ + b₂ + b₃, ⟨?_, rfl, b₁, b₂, b₃, ?_, ?_, ?_, rfl⟩, rfl⟩
  · exact Option.or_none
  · cases hf : lib.lookupString t "format" with
    | none => simpa [loadModule, hf] using hfmt
    | some s => simpa [loadModule, hf] using hfmt
  · simpa [loadModule] using hargs
  · simpa [loadModule] using hstatusNo

theorem copyArgAt_fills : FillsElement array (copyArgAt array) id := by
  intro ms i a _
  refine readModules_triple.bind ?_
  rintro ms _ ⟨rfl, rfl⟩
  refine (strdupNotNull_triple a.fmt).fresh ?_
  intro fmt b₁ hfmt
  refine (strdupNotNull_triple a.args).fresh ?_
  intro args b₂ hargs
  refine (strdupNotNull_triple a.statusNo).fresh ?_
  intro statusNo b₃ hstatusNo
  have hall : b₃ + (b₂ + (b₁ + {(array, Cell.modules ms)})) =
      {(array, .modules ms)} + (b₁ + b₂ + b₃) := by abel
  rw [hall]
  refine (store_triple.frame (b₁ + b₂ + b₃)).mono ?_
  rintro _ _ ⟨_, rfl, rfl⟩
  exact ⟨_, b₁ + b₂ + b₃, ⟨rfl, rfl, b₁, b₂, b₃, hfmt, hargs, hstatusNo, rfl⟩, rfl⟩

/-- A loop over the whole table: what is not filled yet is as `calloc` left it. -/
theorem fillFrom_triple {β : Type} {body : Nat → β → Prog Cell Unit} {f : β → Arg}
    (hbody : FillsElement array body f) (done : List ArgPtrs) (ts : List β) :
    Triple {(array, Cell.modules (done ++ List.replicate ts.length .zero))}
      (fillFrom body done.length ts)
      (fun _ own => ∃ ms b, OwnsArgs ms (ts.map f) b ∧
        own = {(array, .modules (done ++ ms))} + b) := by
  induction ts generalizing done with
  | nil => exact .pure ⟨[], 0, .nil, (add_zero _).symm⟩
  | cons t ts ih =>
    have hzero : (done ++ List.replicate (ts.length + 1) ArgPtrs.zero).getD done.length .zero = .zero := by
      simp [List.getD]
    refine (hbody _ done.length t hzero).bind ?_
    rintro _ _ ⟨m, b, hm, rfl⟩
    have hset : (done ++ List.replicate (ts.length + 1) ArgPtrs.zero).set done.length m =
        done ++ [m] ++ List.replicate ts.length .zero := by
      simp [List.replicate_succ]
    have hrest := ih (done ++ [m])
    rw [List.length_append, List.length_singleton] at hrest
    rw [hset]
    refine (hrest.frame b).mono ?_
    rintro _ _ ⟨_, ⟨ms, bs, hms, rfl⟩, rfl⟩
    refine ⟨m :: ms, b + bs, .cons hm hms, ?_⟩
    rw [List.append_assoc, List.singleton_append]
    abel

theorem OwnsArg.free {m : ArgPtrs} {a : Arg} {b : Multiset (Block Cell)} (h : OwnsArg m a b)
    {next : Prog Cell Unit} {post : Unit → Multiset (Block Cell) → Prop} (hnext : Triple own next post) :
    Triple (b + own) (do Alloc.free m.fmt; Alloc.free m.args; Alloc.free m.statusNo; next) post := by
  obtain ⟨b₁, b₂, b₃, h₁, h₂, h₃, rfl⟩ := h.strings
  refine h₁.free.step (r := b₂ + b₃ + own) (by abel) ?_
  rintro _ _ rfl
  refine h₂.free.step (r := b₃ + own) (by abel) ?_
  rintro _ _ rfl
  refine h₃.free.step (r := own) (by abel) ?_
  rintro _ _ rfl
  rw [zero_add]
  exact hnext

theorem freeModulesFrom_triple {as : List Arg} (done : List ArgPtrs) (h : OwnsArgs ms as own) :
    Triple ({(array, Cell.modules (done ++ ms))} + own)
      (freeModulesFrom array done.length ms.length)
      (fun _ own => own = {(array, .modules (done ++ ms))}) := by
  induction h generalizing done with
  | nil => exact .pure (add_zero _)
  | @cons m a ms as b bs hm hms ih =>
    refine readModules_triple.step rfl ?_
    rintro _ _ ⟨rfl, rfl⟩
    have hget : (done ++ m :: ms)[done.length]? = some m := by simp
    have hrest := ih (done ++ [m])
    rw [List.length_append, List.length_singleton, List.append_assoc, List.singleton_append] at hrest
    have hall : {(array, Cell.modules (done ++ m :: ms))} + (b + bs) =
        b + ({(array, .modules (done ++ m :: ms))} + bs) := by abel
    rw [hall]
    simp only [hget]
    exact hm.free hrest

end Table

section Config

variable {lib haveMpd} {g : ConfPtrs} {c : Config} {own : Multiset (Block Cell)}

theorem loadModulesMem_triple (doc : S) (h : Owns g c own) (hc : c.modules = none) :
    Triple own (loadModulesMem lib haveMpd doc g)
      (fun g' own' => Owns g' (loadModules lib haveMpd doc c) own') := by
  cases hlist : lib.lookup doc "modules" with
  | none =>
    simp only [loadModulesMem, loadModules, hlist]
    exact .pure h
  | some modulesT =>
    by_cases hl : lib.isList modulesT = true
    · by_cases hempty : (lib.elems modulesT).length = 0
      · simp only [loadModulesMem, loadModules, hlist, if_pos hl, if_pos hempty]
        exact .pure ⟨h.interval, h.maximumStatusLength, rfl, h.mpdTitleLength, h.mpdOnTextFits,
          h.memory⟩
      · obtain ⟨b₁, b₂, b₃, hunknown, hmodules, hloop, rfl⟩ := h.memory
        rw [hc] at hmodules
        generalize hptr : g.modules = ptr at hmodules
        cases hmodules
        simp only [loadModulesMem, loadModules, hlist, if_pos hl, if_neg hempty]
        refine (malloc_triple _).fresh ?_
        rintro array _ rfl
        have hbody : FillsElement array (loadModuleAt lib haveMpd array) (loadModule lib haveMpd) :=
          loadModuleAt_fills
        have hfill := fillFrom_triple hbody [] (lib.elems modulesT)
        refine hfill.step rfl ?_
        rintro _ _ ⟨ms, b, hms, rfl⟩
        refine .pure ⟨h.interval, h.maximumStatusLength, rfl, h.mpdTitleLength, h.mpdOnTextFits,
          b₁, _, b₃, hunknown, .array array hms, hloop, ?_⟩
        rw [List.nil_append]
        abel
    · simp only [loadModulesMem, loadModules, hlist, if_neg hl]
      exact .pure h

theorem loadMpdonairMem_triple (doc : S) (h : Owns g c own) :
    Triple own (loadMpdonairMem lib doc g)
      (fun g' own' => Owns g' (loadMpdonair lib doc c) own') := by
  obtain ⟨b₁, b₂, b₃, hunknown, hmodules, hloop, rfl⟩ := h.memory
  refine (lookupStrdup_triple (lib.lookupString doc "mpd.loop_text") hloop).step
    (r := b₁ + b₂) (by abel) ?_
  rintro ⟨ok, p⟩ b ⟨-, hp⟩
  refine .pure ⟨h.interval, h.maximumStatusLength, h.numModules, ?_, ?_, b₁, b₂, b, hunknown,
    hmodules, hp, by abel⟩
  · simp only [loadMpdonair, h.mpdTitleLength]
  · simp only [loadMpdonair, h.mpdOnTextFits]

theorem fallbackLoopText_triple (h : Owns g c own) :
    Triple own (fallbackLoopText haveMpd g) (fun g' own' => Owns g'
      (if haveMpd then { c with mpdLoopText := c.mpdLoopText.or (some (lit " ~ ")) } else c)
      own') := by
  obtain ⟨b₁, b₂, b₃, hunknown, hmodules, hloop, rfl⟩ := h.memory
  cases haveMpd with
  | false => exact .pure h
  | true =>
    generalize hptr : g.mpdLoopText = ptr at hloop
    generalize htext : c.mpdLoopText = text at hloop
    cases hloop with
    | block p s =>
      simp only [fallbackLoopText, hptr, true_and, reduceCtorEq, if_false]
      refine .pure ⟨h.interval, h.maximumStatusLength, h.numModules, h.mpdTitleLength,
        h.mpdOnTextFits, b₁, b₂, _, hunknown, hmodules, ?_, rfl⟩
      rw [hptr]
      exact .block p s
    | null =>
      simp only [fallbackLoopText, hptr, true_and, if_true]
      refine (strdup_triple (lit " ~ ")).fresh ?_
      rintro p _ rfl
      refine .pure ⟨h.interval, h.maximumStatusLength, h.numModules, h.mpdTitleLength,
        h.mpdOnTextFits, b₁, b₂, _, hunknown, hmodules, .block p _, ?_⟩
      abel

theorem fallbackModules_triple (h : Owns g c own) :
    Triple own (fallbackModules g) (fun g' own' => Owns g'
      (match c.modules with
        | some _ => c
        | none => { c with numModules := defaultArgs.length, modules := some defaultArgs })
      own') := by
  obtain ⟨b₁, b₂, b₃, hunknown, hmodules, hloop, rfl⟩ := h.memory
  generalize hptr : g.modules = ptr at hmodules
  generalize htable : c.modules = table at hmodules
  cases hmodules with
  | array p hms =>
    simp only [fallbackModules, hptr]
    exact .pure h
  | null =>
    simp only [fallbackModules, hptr]
    refine (malloc_triple _).fresh ?_
    rintro array _ rfl
    have hbody : FillsElement array (copyArgAt array) id := copyArgAt_fills
    have hfill := fillFrom_triple hbody [] defaultArgs
    rw [List.map_id] at hfill
    refine hfill.step rfl ?_
    rintro _ _ ⟨ms, b, hms, rfl⟩
    refine .pure ⟨h.interval, h.maximumStatusLength, rfl, h.mpdTitleLength, h.mpdOnTextFits,
      b₁, _, b₃, hunknown, .array array hms, hloop, ?_⟩
    rw [List.nil_append]
    abel

theorem loadFallbackConfigMem_triple (h : Owns g c own) :
    Triple own (loadFallbackConfigMem haveMpd g)
      (fun g' own' => Owns g' (loadFallbackConfig haveMpd c) own') := by
  refine (fallbackLoopText_triple h).bind ?_
  intro g' own' h'
  refine (fallbackModules_triple h').mono ?_
  intro g'' own'' h''
  exact h''

theorem owns_initial : Owns {} {} 0 :=
  ⟨rfl, rfl, rfl, rfl, rfl, 0, 0, 0, .null, .null, .null, rfl⟩

variable (lib haveMpd) in
theorem loadDocumentMem_triple (doc : S) :
    Triple 0 (loadDocumentMem lib haveMpd doc) (fun g own => ∃ c, Owns g c own ∧
      loadFallbackConfig haveMpd c = loadConfig lib haveMpd (some doc)) := by
  refine (lookupStrdup_triple (lib.lookupString doc "unknown_string") .null).bind ?_
  rintro ⟨ok, p⟩ own ⟨-, hp⟩
  let c₀ : Config :=
    { interval := (getUnsignedInt lib (lib.lookup doc "interval")).getD 1000
      maximumStatusLength := (lib.lookupInt doc "maximum_length").getD 2048
      unknownString := (lib.lookupString doc "unknown_string").or none }
  have howns : Owns
      { interval := (getUnsignedInt lib (lib.lookup doc "interval")).getD 1000
        maximumStatusLength := (lib.lookupInt doc "maximum_length").getD 2048
        unknownString := p } c₀ own :=
    ⟨rfl, rfl, rfl, rfl, rfl, own, 0, 0, hp, .null, .null, by abel⟩
  refine (loadModulesMem_triple doc howns rfl).bind ?_
  intro g own h
  cases haveMpd with
  | false => exact .pure ⟨_, h, rfl⟩
  | true => exact (loadMpdonairMem_triple doc h).mono (fun g' own' h' => ⟨_, h', rfl⟩)

theorem readPath_triple {p : Option Nat} {s : Option Bytes} (h : OwnsString p s own) :
    Triple own (readPath p) (fun s' own' => s' = s ∧ own' = own) := by
  cases h with
  | null => exact .pure ⟨rfl, rfl⟩
  | block p s =>
    refine readString_triple.map ?_
    rintro _ _ ⟨rfl, rfl⟩
    exact ⟨rfl, rfl⟩

variable (lib haveMpd) in
theorem readConfigMem_triple (doc : Option S) :
    Triple 0 (readConfigMem lib haveMpd doc)
      (fun g own => ∃ c, Owns g c own ∧
        loadFallbackConfig haveMpd c = loadConfig lib haveMpd doc) := by
  cases doc with
  | none => exact .pure ⟨_, owns_initial, rfl⟩
  | some doc => exact loadDocumentMem_triple lib haveMpd doc

variable (lib haveMpd) in
theorem loadConfigMem_triple (env : Environment) (read : Option Bytes → Bytes → Option S) :
    let path := getConfigPath env (some cfgFilename)
    Triple 0 (loadConfigMem lib haveMpd env read)
      (fun g own => Owns g (loadConfig lib haveMpd (read path (pathDirname path))) own) := by
  intro path
  refine (strdupNotNull_triple path).bind ?_
  intro configFile b₁ hfile
  refine (readPath_triple hfile).bind ?_
  rintro _ _ ⟨rfl, rfl⟩
  refine (strdup_triple _).fresh ?_
  rintro configPath _ rfl
  refine readString_triple.step rfl ?_
  rintro _ _ ⟨rfl, rfl⟩
  refine (readConfigMem_triple lib haveMpd (read path (pathDirname path))).fresh ?_
  rintro g own ⟨c, howns, hc⟩
  refine hfile.free.step (r := own + {(configPath, .string (pathDirname path))}) (by abel) ?_
  rintro _ _ rfl
  refine (free_triple (p := configPath) (x := .string (pathDirname path))).step
    (r := own) (by abel) ?_
  rintro _ _ rfl
  rw [← hc, zero_add]
  exact loadFallbackConfigMem_triple howns

theorem OwnsArgs.length_eq {ms : List ArgPtrs} {as : List Arg} (h : OwnsArgs ms as own) :
    ms.length = as.length := by
  induction h with
  | nil => rfl
  | cons _ _ ih => simp [ih]

/-- After the loop only the table itself is left to free. -/
theorem freeModules_triple (h : OwnsModules g.modules c.modules own)
    (hnum : g.numModules = (c.modules.getD []).length) :
    Triple own (freeModules g)
      (fun _ own => Triple own (free g.modules) (fun _ own' => own' = 0)) := by
  generalize hptr : g.modules = ptr at h
  generalize htable : c.modules = table at h
  cases h with
  | null =>
    have hzero : g.numModules = 0 := by rw [hnum, htable]; rfl
    simp only [freeModules, hptr, if_pos hzero]
    exact .pure free_null
  | @array p ms as own h =>
    have hlen : g.numModules = ms.length := by rw [hnum, htable, h.length_eq]; rfl
    simp only [freeModules, hptr, hlen]
    refine (freeModulesFrom_triple [] h).mono ?_
    rintro _ _ rfl
    exact free_triple

theorem cleanupConfig_triple (h : Owns g c own)
    (hnum : c.numModules = (c.modules.getD []).length)
    (hmpd : haveMpd = false → c.mpdLoopText = none) :
    Triple own (cleanupConfig haveMpd g) (fun _ own => own = 0) := by
  obtain ⟨b₁, b₂, b₃, hunknown, hmodules, hloop, rfl⟩ := h.memory
  refine hunknown.free.step (r := b₂ + b₃) (by abel) ?_
  rintro _ _ rfl
  refine (freeModules_triple hmodules (h.numModules.trans hnum)).step (r := b₃) (by abel) ?_
  intro _ table htable
  refine htable.step (r := b₃) rfl ?_
  rintro _ _ rfl
  rw [zero_add]
  cases haveMpd with
  | true => exact hloop.free
  | false =>
    generalize hptr : g.mpdLoopText = ptr at hloop
    rw [hmpd rfl] at hloop
    cases hloop
    exact .pure rfl

theorem loadConfig_numModules (doc : Option S) :
    (loadConfig lib haveMpd doc).numModules = ((loadConfig lib haveMpd doc).modules.getD []).length := by
  cases doc with
  | none => cases haveMpd <;> rfl
  | some d =>
    obtain ⟨-, -, hmodules, hnum⟩ := loadConfig_fields lib haveMpd d
    rw [hmodules, hnum]
    rfl

theorem loadModules_mpdLoopText (d : S) (c : Config) :
    (loadModules lib haveMpd d c).mpdLoopText = c.mpdLoopText := by
  cases hlist : lib.lookup d "modules" with
  | none => simp [loadModules, hlist]
  | some list =>
    by_cases hl : lib.isList list = true
    · by_cases hempty : lib.elems list = []
      · simp [loadModules, hlist, hl, hempty]
      · simp [loadModules, hlist, hl, hempty]
    · simp [loadModules, hlist, hl]

theorem loadFallbackConfig_mpdLoopText (c : Config) :
    (loadFallbackConfig false c).mpdLoopText = c.mpdLoopText := by
  cases hc : c.modules with
  | none => simp [loadFallbackConfig, hc]
  | some ms => simp [loadFallbackConfig, hc]

theorem loadConfig_mpdLoopText (doc : Option S) (h : haveMpd = false) :
    (loadConfig lib haveMpd doc).mpdLoopText = none := by
  subst h
  cases doc with
  | none => rfl
  | some d => exact (loadFallbackConfig_mpdLoopText _).trans (loadModules_mpdLoopText d _)

end Config

end Slstatus
