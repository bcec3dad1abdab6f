import Slstatus.Counters
import Slstatus.Decimal

/-! The walk of `io_perc` over /sys/block. The two paths are built by `strcpy` and `strcat`
in arrays of 50 and of 34 bytes, which do not ask how long the name of the entry is. -/

namespace Slstatus

/-- What the walk finds outside the program: the names that `readdir` returns, the paths that
`access` finds readable, and what the files hold that `fopen` opens. -/
structure SysBlock where
  listing : List Bytes
  readable : Bytes → Bool
  stat : Bytes → Option Bytes

/-- `strcpy` into an array of `size` bytes, which has to hold the terminator as well. -/
def strcpy (size : Nat) (src : Bytes) : Except Fault Bytes :=
  if src.length < size then .ok src else .error .outOfBounds

def strcat (size : Nat) (dst src : Bytes) : Except Fault Bytes := strcpy size (dst ++ src)

/-- `strstr(s, needle) != NULL`. -/
def strstr (needle : Bytes) : Bytes → Bool
  | [] => needle.isEmpty
  | c :: s => needle.isPrefixOf (c :: s) || strstr needle s

def afterNumber (s : Bytes) : Bytes :=
  match s.dropWhile isSpace with
  | 45 :: s => s.dropWhile isDigit
  | 43 :: s => s.dropWhile isDigit
  | s => s.dropWhile isDigit

def scanInt (s : Bytes) : Option (Int × Bytes) :=
  match scanNumber s with
  | .number z => some (z, afterNumber s)
  | _ => none

inductive Conversion
  | skip | store

/-- The numbers that the conversions store, up to the first one that fails. -/
def vfscanf : List Conversion → Bytes → List Int
  | [], _ => []
  | conversion :: format, s =>
    match scanInt s with
    | none => []
    | some (z, rest) =>
      match conversion with
      | .skip => vfscanf format rest
      | .store => z :: vfscanf format rest

/-- `"%*d %*d %*d %*d %*d %*d %*d %*d %*d %ju %*d"`. -/
def waitFormat : List Conversion := List.replicate 9 .skip ++ [.store, .skip]

def pscanfWait (file : Option Bytes) : Option UInt64 :=
  match file with
  | none => none
  | some s =>
    match vfscanf waitFormat s with
    | [partwait] => some (toUintmax partwait)
    | _ => none

def virtualBlock : Bytes := lit "/sys/devices/virtual/block/"

def sysBlock : Bytes := lit "/sys/block/"

def virtPath (name : Bytes) : Except Fault Bytes := do
  let virtpath ← strcpy 50 virtualBlock
  strcat 50 virtpath name

def statPath (name : Bytes) : Except Fault Bytes := do
  let statpath ← strcpy 34 sysBlock
  let statpath ← strcat 34 statpath name
  strcat 34 statpath (lit "/stat")

def walkEntry (sys : SysBlock) (name : Bytes) (newwait : UInt64) : Except Fault UInt64 := do
  if strstr (lit "loop") name || strstr (lit "ram") name then return newwait
  if name = lit "." ∨ name = lit ".." then return newwait
  -- virtual devices don't count, but their path is built first
  let virtpath ← virtPath name
  if sys.readable virtpath then return newwait
  let statpath ← statPath name
  match pscanfWait (sys.stat statpath) with
  | none => return newwait
  | some partwait => return newwait + partwait

def walkEntries (sys : SysBlock) : List Bytes → UInt64 → Except Fault UInt64
  | [], newwait => .ok newwait
  | name :: names, newwait =>
    match walkEntry sys name newwait with
    | .error f => .error f
    | .ok newwait => walkEntries sys names newwait

/-- `sys` is `none` where the directory cannot be opened. -/
def ioPercCall (interval : UInt32) (sys : Option SysBlock) (oldwait : UInt64) :
    Except Fault (Reading × UInt64) :=
  match sys with
  | none => .ok (ioPerc interval none oldwait)
  | some sys => (walkEntries sys sys.listing 0).map (fun wait => ioPerc interval (some wait) oldwait)

/-- The first numbers of a text, at most `n`. -/
def firstNumbers : Nat → Bytes → List Int
  | 0, _ => []
  | n + 1, s =>
    match scanInt s with
    | none => []
    | some (z, rest) => z :: firstNumbers n rest

/-- The tenth field of a stat file, where its first ten fields are numbers. -/
def tenthField (s : Bytes) : Option UInt64 := (firstNumbers 10 s)[9]?.map toUintmax

namespace SysBlock

def Relevant (name : Bytes) : Prop :=
  ¬ lit "loop" <:+: name ∧ ¬ lit "ram" <:+: name ∧ name ≠ lit "." ∧ name ≠ lit ".."

instance : DecidablePred Relevant := fun _ => inferInstanceAs (Decidable (_ ∧ _))

variable (sys : SysBlock)

def Virtual (name : Bytes) : Prop := sys.readable (virtualBlock ++ name) = true

instance : DecidablePred sys.Virtual := fun _ => inferInstanceAs (Decidable (_ = _))

/-- The tenth field of the entry, where it counts. -/
def wait (name : Bytes) : Option UInt64 :=
  if Relevant name ∧ ¬ sys.Virtual name then
    (sys.stat (sysBlock ++ name ++ lit "/stat")).bind tenthField
  else none

def total : Nat := ((sys.listing.filterMap sys.wait).map UInt64.toNat).sum

/-- The name leaves room in the arrays that it is put in. -/
def Fits (name : Bytes) : Prop :=
  Relevant name → name.length ≤ 22 ∧ (¬ sys.Virtual name → name.length ≤ 17)

end SysBlock

theorem strstr_iff {needle s : Bytes} : strstr needle s = true ↔ needle <:+: s := by
  induction s with
  | nil => rw [strstr, List.isEmpty_iff, List.infix_nil]
  | cons c s ih => rw [strstr, Bool.or_eq_true, List.isPrefixOf_iff_prefix, ih, List.infix_cons_iff]

theorem vfscanf_skip (n : Nat) (s : Bytes) :
    vfscanf (List.replicate n .skip ++ [.store, .skip]) s = ((firstNumbers (n + 1) s)[n]?).toList := by
  induction n generalizing s with
  | zero =>
    rw [List.replicate_zero, List.nil_append, vfscanf, firstNumbers]
    cases scanInt s with
    | none => rfl
    | some a =>
      have hskip : vfscanf [.skip] a.2 = [] := by
        rw [vfscanf]
        cases scanInt a.2 <;> rfl
      simp only [hskip, List.getElem?_cons_zero, Option.toList_some]
  | succ n ih =>
    rw [List.replicate_succ, List.cons_append, vfscanf, firstNumbers]
    cases scanInt s with
    | none => rfl
    | some a => simpa only [List.getElem?_cons_succ] using ih a.2

theorem pscanfWait_eq (file : Option Bytes) : pscanfWait file = file.bind tenthField := by
  cases file with
  | none => rfl
  | some s =>
    have hstored : vfscanf waitFormat s = ((firstNumbers 10 s)[9]?).toList := vfscanf_skip 9 s
    rw [pscanfWait, hstored, Option.bind_some, tenthField]
    cases (firstNumbers 10 s)[9]? <;> rfl

/-- The line of a stat file: numbers, each with the spaces that pad it. -/
def statLine : List (Nat × Nat) → Bytes
  | [] => [10]
  | (pad, n) :: fields =>
    List.replicate pad 32 ++ decimal n ++ if fields = [] then [10] else 32 :: statLine fields

theorem scanInt_space (s : Bytes) : scanInt (32 :: s) = scanInt s := by
  have hspace : (32 :: s).dropWhile isSpace = s.dropWhile isSpace := rfl
  simp only [scanInt, scanNumber, afterNumber, hspace]

theorem scanInt_spaces (pad : Nat) (s : Bytes) :
    scanInt (List.replicate pad 32 ++ s) = scanInt s := by
  induction pad with
  | zero => rfl
  | succ pad ih => rw [List.replicate_succ, List.cons_append, scanInt_space, ih]

theorem not_isSpace_of_isDigit {c : UInt8} (h : isDigit c = true) : isSpace c = false := by
  rw [isDigit, Bool.and_eq_true, decide_eq_true_eq, UInt8.le_iff_toNat_le] at h
  have hlo : 48 ≤ c.toNat := h.1
  have h32 : ¬ c = 32 := by
    rintro rfl
    exact absurd hlo (by decide)
  have h13 : ¬ c ≤ 13 := by
    rw [UInt8.le_iff_toNat_le, Nat.not_le]
    exact Nat.lt_of_lt_of_le (by decide) hlo
  simp [isSpace, h32, h13]

theorem scanInt_decimal (n : Nat) {c : UInt8} (hc : isDigit c = false) (rest : Bytes) :
    scanInt (decimal n ++ c :: rest) = some ((n : Int), c :: rest) := by
  obtain ⟨d, ds, hdec⟩ := List.exists_cons_of_ne_nil (decimal_ne_nil n)
  have hd : isDigit d = true := isDigit_of_mem_decimal (n := n) (by simp [hdec])
  have hminus : d ≠ 45 := by
    rintro rfl
    cases hd
  have hplus : d ≠ 43 := by
    rintro rfl
    cases hd
  have hspace : (d :: (ds ++ c :: rest)).dropWhile isSpace = d :: (ds ++ c :: rest) :=
    List.dropWhile_cons_of_neg (by simp [not_isSpace_of_isDigit hd])
  have htext : decimal n ++ c :: rest = d :: (ds ++ c :: rest) := by rw [hdec, List.cons_append]
  have hscan : scanNumber (d :: (ds ++ c :: rest)) = scanDigits 1 (d :: (ds ++ c :: rest)) := by
    simp [scanNumber, hspace, hminus, hplus]
  have hafter : afterNumber (d :: (ds ++ c :: rest)) =
      (d :: (ds ++ c :: rest)).dropWhile isDigit := by
    simp [afterNumber, hspace, hminus, hplus]
  have hdigits : scanDigits 1 (decimal n ++ c :: rest) = .number n := by
    rw [scanDigits, takeWhile_decimal n hc, if_neg (decimal_ne_nil n), digitsValue_decimal,
      Int.one_mul]
  rw [scanInt, htext, hscan, hafter, ← htext, hdigits, dropWhile_decimal n hc]

theorem firstNumbers_statLine (k : Nat) (fields : List (Nat × Nat)) :
    firstNumbers k (statLine fields) = (fields.take k).map (fun f => (f.2 : Int)) := by
  induction fields generalizing k with
  | nil =>
    have hend : scanInt [10] = none := by decide
    cases k with
    | zero => rfl
    | succ k => rw [statLine, firstNumbers, hend, List.take_nil, List.map_nil]
  | cons f fields ih =>
    cases k with
    | zero => rfl
    | succ k =>
      by_cases hlast : fields = []
      · have hnext := ih k
        subst hlast
        have hscan := scanInt_decimal f.2 (c := 10) rfl []
        rw [statLine, if_pos rfl, List.append_assoc, firstNumbers, scanInt_spaces, hscan,
          List.take_succ_cons, List.map_cons, ← hnext]
        rfl
      · have hscan := scanInt_decimal f.2 (c := 32) rfl (statLine fields)
        have hskip : firstNumbers k (32 :: statLine fields) = firstNumbers k (statLine fields) := by
          cases k with
          | zero => rfl
          | succ k => rw [firstNumbers, scanInt_space, firstNumbers]
        rw [statLine, if_neg hlast, List.append_assoc, firstNumbers, scanInt_spaces, hscan,
          List.take_succ_cons, List.map_cons, ← ih k, ← hskip]

/-- The tenth number of a line with at least ten of them is what the walk adds. -/
theorem tenthField_statLine {fields : List (Nat × Nat)} (h : 10 ≤ fields.length) :
    tenthField (statLine fields) = some (toUintmax (fields.get ⟨9, h⟩).2) := by
  rw [tenthField, firstNumbers_statLine, List.getElem?_map, List.getElem?_take_of_lt (by omega),
    List.getElem?_eq_getElem (by omega)]
  rfl

theorem strcpy_ok {size : Nat} {src : Bytes} (h : src.length < size) : strcpy size src = .ok src :=
  if_pos h

theorem strcpy_error {size : Nat} {src : Bytes} (h : size ≤ src.length) :
    strcpy size src = .error .outOfBounds := if_neg (Nat.not_lt.mpr h)

theorem virtPath_ok {name : Bytes} (h : name.length ≤ 22) :
    virtPath name = .ok (virtualBlock ++ name) := by
  have hlen : (virtualBlock ++ name).length = 27 + name.length := List.length_append
  exact strcpy_ok (by omega)

theorem virtPath_error {name : Bytes} (h : 22 < name.length) :
    virtPath name = .error .outOfBounds := by
  have hlen : (virtualBlock ++ name).length = 27 + name.length := List.length_append
  exact strcpy_error (by omega)

theorem statPath_ok {name : Bytes} (h : name.length ≤ 17) :
    statPath name = .ok (sysBlock ++ name ++ lit "/stat") := by
  have hlen : (sysBlock ++ name).length = 11 + name.length := List.length_append
  have hlen' : (sysBlock ++ name ++ lit "/stat").length = (sysBlock ++ name).length + 5 :=
    List.length_append
  have hname : strcat 34 sysBlock name = .ok (sysBlock ++ name) := strcpy_ok (by omega)
  have hstat : strcat 34 (sysBlock ++ name) (lit "/stat") =
      .ok (sysBlock ++ name ++ lit "/stat") := strcpy_ok (by omega)
  calc statPath name = (strcat 34 sysBlock name >>= (strcat 34 · (lit "/stat"))) := rfl
    _ = strcat 34 (sysBlock ++ name) (lit "/stat") := by rw [hname]; rfl
    _ = .ok (sysBlock ++ name ++ lit "/stat") := hstat

theorem statPath_error {name : Bytes} (h : 17 < name.length) :
    statPath name = .error .outOfBounds := by
  have hlen : (sysBlock ++ name).length = 11 + name.length := List.length_append
  have hlen' : (sysBlock ++ name ++ lit "/stat").length = (sysBlock ++ name).length + 5 :=
    List.length_append
  have hsplit : statPath name = (strcat 34 sysBlock name >>= (strcat 34 · (lit "/stat"))) := rfl
  by_cases hlong : 34 ≤ (sysBlock ++ name).length
  · have hname : strcat 34 sysBlock name = .error .outOfBounds := strcpy_error hlong
    rw [hsplit, hname]
    rfl
  · have hname : strcat 34 sysBlock name = .ok (sysBlock ++ name) := strcpy_ok (by omega)
    have hstat : strcat 34 (sysBlock ++ name) (lit "/stat") = .error .outOfBounds :=
      strcpy_error (by omega)
    rw [hsplit, hname]
    exact hstat

section Entry

variable {sys : SysBlock} {name : Bytes}

theorem walkEntry_irrelevant (h : ¬ SysBlock.Relevant name) (newwait : UInt64) :
    walkEntry sys name newwait = .ok newwait := by
  by_cases hnamed : strstr (lit "loop") name || strstr (lit "ram") name
  · rw [walkEntry, if_pos hnamed]
    rfl
  · have hdots : name = lit "." ∨ name = lit ".." := by
      rw [Bool.or_eq_true, strstr_iff, strstr_iff, not_or] at hnamed
      by_contra hdots
      rw [not_or] at hdots
      exact h ⟨hnamed.1, hnamed.2, hdots⟩
    rw [walkEntry, if_neg hnamed, if_pos hdots]
    rfl

theorem walkEntry_relevant (h : SysBlock.Relevant name) (newwait : UInt64) :
    walkEntry sys name newwait = do
      let virtpath ← virtPath name
      if sys.readable virtpath then return newwait
      let statpath ← statPath name
      return newwait + (pscanfWait (sys.stat statpath)).getD 0 := by
  have hnamed : ¬ (strstr (lit "loop") name || strstr (lit "ram") name) := by
    rw [Bool.or_eq_true, strstr_iff, strstr_iff, not_or]
    exact ⟨h.1, h.2.1⟩
  have hadd : ∀ wait : Option UInt64, (match wait with
      | none => pure newwait
      | some partwait => pure (newwait + partwait) : Except Fault UInt64) =
        pure (newwait + wait.getD 0) := by
    intro wait
    cases wait with
    | none => rw [Option.getD_none, UInt64.add_zero]
    | some partwait => rfl
  rw [walkEntry, if_neg hnamed, if_neg (not_or.mpr h.2.2)]
  simp only [hadd]

theorem wait_of_relevant (h : SysBlock.Relevant name) (hvirtual : ¬ sys.Virtual name) :
    sys.wait name = pscanfWait (sys.stat (sysBlock ++ name ++ lit "/stat")) := by
  rw [SysBlock.wait, if_pos ⟨h, hvirtual⟩, pscanfWait_eq]

/-- An entry that fits adds what it counts for. -/
theorem walkEntry_ok (h : sys.Fits name) (newwait : UInt64) :
    walkEntry sys name newwait = .ok (newwait + (sys.wait name).getD 0) := by
  by_cases hrel : SysBlock.Relevant name
  · obtain ⟨hvirt, hstat⟩ := h hrel
    rw [walkEntry_relevant hrel, virtPath_ok hvirt]
    by_cases hvirtual : sys.Virtual name
    · have hwait : sys.wait name = none := if_neg (fun hh => hh.2 hvirtual)
      rw [hwait, Option.getD_none, UInt64.add_zero]
      exact if_pos hvirtual
    · rw [statPath_ok (hstat hvirtual), wait_of_relevant hrel hvirtual]
      exact if_neg hvirtual
  · have hwait : sys.wait name = none := if_neg (fun hh => hrel hh.1)
    rw [walkEntry_irrelevant hrel, hwait, Option.getD_none, UInt64.add_zero]

theorem walkEntry_error (h : ¬ sys.Fits name) (newwait : UInt64) :
    walkEntry sys name newwait = .error .outOfBounds := by
  rw [SysBlock.Fits, Classical.not_imp] at h
  obtain ⟨hrel, hlong⟩ := h
  rw [walkEntry_relevant hrel]
  by_cases hvirt : name.length ≤ 22
  · have hstat : ¬ sys.Virtual name ∧ ¬ name.length ≤ 17 := by
      rw [← Classical.not_imp]
      exact fun hh => hlong ⟨hvirt, hh⟩
    rw [virtPath_ok hvirt, statPath_error (Nat.not_le.mp hstat.2)]
    exact if_neg hstat.1
  · rw [virtPath_error (Nat.not_le.mp hvirt)]
    rfl

end Entry

section Walk

variable {sys : SysBlock} {names : List Bytes}

theorem walkEntries_ok (h : ∀ name ∈ names, sys.Fits name) (newwait : UInt64) :
    ∃ sum, walkEntries sys names newwait = .ok sum ∧
      sum.toNat = (newwait.toNat + ((names.filterMap sys.wait).map UInt64.toNat).sum) % 2 ^ 64 := by
  induction names generalizing newwait with
  | nil => exact ⟨newwait, rfl, (Nat.mod_eq_of_lt newwait.toNat_lt).symm⟩
  | cons name names ih =>
    obtain ⟨sum, hsum, hval⟩ := ih (fun other hother => h other (List.mem_cons_of_mem name hother))
      (newwait + (sys.wait name).getD 0)
    refine ⟨sum, ?_, ?_⟩
    · rw [walkEntries, walkEntry_ok (h name List.mem_cons_self)]
      exact hsum
    · rw [hval, UInt64.toNat_add]
      cases hwait : sys.wait name with
      | none =>
        rw [List.filterMap_cons_none hwait, Option.getD_none, UInt64.toNat_zero, Nat.add_zero,
          Nat.mod_add_mod]
      | some partwait =>
        rw [List.filterMap_cons_some hwait, List.map_cons, List.sum_cons, Option.getD_some,
          Nat.mod_add_mod, Nat.add_assoc]

theorem walkEntries_error (h : ∃ name ∈ names, ¬ sys.Fits name) (newwait : UInt64) :
    walkEntries sys names newwait = .error .outOfBounds := by
  induction names generalizing newwait with
  | nil =>
    obtain ⟨name, hname, -⟩ := h
    cases hname
  | cons first names ih =>
    by_cases hfits : sys.Fits first
    · have hrest : ∃ name ∈ names, ¬ sys.Fits name := by
        obtain ⟨name, hname, hlong⟩ := h
        rcases List.mem_cons.mp hname with rfl | hmem
        · exact absurd hfits hlong
        · exact ⟨name, hmem, hlong⟩
      rw [walkEntries, walkEntry_ok hfits]
      exact ih hrest _
    · rw [walkEntries, walkEntry_error hfits]

end Walk

theorem ioPerc_newwait (interval : UInt32) (new old : UInt64) :
    (ioPerc interval (some new) old).2 = new := by
  by_cases h : old = 0 ∨ new < old
  · simp only [ioPerc, if_pos h]
  · simp only [ioPerc, if_neg h]

/-- The call stays within its arrays and leaves the sum of the counted entries exactly when
the name of every entry that it builds a path for is short enough, and the sum is a number
of the type. -/
theorem ioPercCall_iff (interval : UInt32) (sys : SysBlock) (oldwait : UInt64) :
    (∃ reading newwait, ioPercCall interval (some sys) oldwait = .ok (reading, newwait) ∧
        newwait.toNat = sys.total) ↔
      (∀ name ∈ sys.listing, sys.Fits name) ∧ sys.total < 2 ^ 64 := by
  by_cases hfits : ∀ name ∈ sys.listing, sys.Fits name
  · obtain ⟨sum, hsum, hval⟩ := walkEntries_ok hfits 0
    rw [UInt64.toNat_zero, Nat.zero_add] at hval
    have hcall : ioPercCall interval (some sys) oldwait =
        .ok ((ioPerc interval (some sum) oldwait).1, sum) := by
      rw [ioPercCall, hsum]
      exact congrArg Except.ok (Prod.ext rfl (ioPerc_newwait interval sum oldwait))
    have hmod : sum.toNat = sys.total ↔ sys.total < 2 ^ 64 := by
      constructor
      · intro heq
        exact heq ▸ sum.toNat_lt
      · intro hlt
        exact hval.trans (Nat.mod_eq_of_lt hlt)
    constructor
    · rintro ⟨reading, newwait, hrun, htotal⟩
      have hnew : sum = newwait := congrArg Prod.snd (Except.ok.inj (hcall.symm.trans hrun))
      exact ⟨hfits, hmod.mp (hnew ▸ htotal)⟩
    · rintro ⟨-, hlt⟩
      exact ⟨_, sum, hcall, hmod.mpr hlt⟩
  · constructor
    · rintro ⟨reading, newwait, hrun, -⟩
      have hbad : ∃ name ∈ sys.listing, ¬ sys.Fits name := by
        by_contra hall
        exact hfits (fun name hname => by_contra (fun hlong => hall ⟨name, hname, hlong⟩))
      rw [ioPercCall, walkEntries_error hbad] at hrun
      cases hrun
    · rintro ⟨hall, -⟩
      exact absurd hall hfits

/-- One disk whose name has 18 bytes: the path of its stat file is one byte too long. -/
theorem ioPercCall_overflow :
    ¬ ∃ reading newwait, ioPercCall 1000 (some
      { listing := [lit ".", lit "..", lit "sda", lit "rssd-backup-disk-1"]
        readable := fun _ => false
        stat := fun _ => some (lit "1 2 3 4 5 6 7 8 9 10 11\n") }) 0 = .ok (reading, newwait) ∧
      newwait.toNat = SysBlock.total
        { listing := [lit ".", lit "..", lit "sda", lit "rssd-backup-disk-1"]
          readable := fun _ => false
          stat := fun _ => some (lit "1 2 3 4 5 6 7 8 9 10 11\n") } := by
  rintro ⟨reading, newwait, hrun, -⟩
  have herror : ioPercCall 1000 (some
      { listing := [lit ".", lit "..", lit "sda", lit "rssd-backup-disk-1"]
        readable := fun _ => false
        stat := fun _ => some (lit "1 2 3 4 5 6 7 8 9 10 11\n") }) 0 = .error .outOfBounds := by
    decide +kernel
  exact absurd (herror.symm.trans hrun) (by simp)

end Slstatus
