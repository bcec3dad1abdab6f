import Mathlib.Data.List.Nodup
import Mathlib.Data.List.Perm.Subperm
import Mathlib.Logic.Function.Basic
import Slstatus.Lib.Lines
import Slstatus.Scan

/-! `get_swap_info` of swap.c and `get_io` of iocheck.c: named fields of a file of lines,
each converted into the variable that the caller passes for it, if any. -/

namespace Slstatus

/-- A row of `ent`: the name of a field, and whether there is a variable for it. -/
structure Ent where
  name : Bytes
  var : Bool
  deriving DecidableEq

/-- What the loop has left to find, what it has assigned so far, and whether the stream
has met its end. -/
structure InfoState (α : Type) where
  left : Nat
  vars : Bytes → Option α
  ended : Bool

variable {α : Type} (conv : Int → α) (ents : List Ent)

def matchEnt (line : Bytes) : Option Ent := ents.find? (fun e => e.var && e.name.isPrefixOf line)

def afterName (e : Ent) (line : Bytes) : Bytes := line.drop (e.name.length + 1)

def storeField (e : Ent) (line : Bytes) (vars : Bytes → Option α) : Bytes → Option α :=
  match scanNumber (afterName e line) with
  | .number z => Function.update vars e.name (some (conv z))
  | _ => vars

/-- The loop over `getline`. A line that ends with the name has its terminator where the
scan would have to start behind it. -/
def readLines : List Bytes → InfoState α → Except Fault (InfoState α)
  | [], st => .ok (if st.left = 0 then st else { st with ended := true })
  | line :: lines, st =>
    if st.left = 0 then .ok st
    else
      let st := { st with ended := st.ended || !decide (Lines.Terminated line) }
      match matchEnt ents line with
      | none => readLines lines st
      | some e =>
        if line.length ≤ e.name.length then .error .outOfBounds
        else readLines lines { st with left := st.left - 1, vars := storeField conv e line st.vars }

def requested : List Ent := ents.filter Ent.var

/-- The return value, and the variables that the call has assigned. -/
def getInfo (file : Option File) : Except Fault (Int × (Bytes → Option α)) :=
  match file with
  | none => .ok (1, fun _ => none)
  | some f =>
    (readLines conv ents (Lines.getLines f.content)
      ⟨(requested ents).length, fun _ => none, false⟩).map
      (fun st => (if st.ended && f.error then 1 else 0, st.vars))

def swapEnts (sTotal sFree sCached : Bool) : List Ent :=
  [⟨lit "SwapTotal", sTotal⟩, ⟨lit "SwapFree", sFree⟩, ⟨lit "SwapCached", sCached⟩]

def getSwapInfo (sTotal sFree sCached : Bool) (meminfo : Option File) :
    Except Fault (Int × (Bytes → Option Int64)) :=
  getInfo toLong (swapEnts sTotal sFree sCached) meminfo

def ioEnts (sIn sOut : Bool) : List Ent := [⟨lit "pgpgin", sIn⟩, ⟨lit "pgpgout", sOut⟩]

def getIo (sIn sOut : Bool) (vmstat : Option File) :
    Except Fault (Int × (Bytes → Option UInt64)) :=
  getInfo toUintmax (ioEnts sIn sOut) vmstat

/-- A line whose field name, before the separator, is `name`, and its number. -/
def IsField (sep : UInt8) (name line : Bytes) (z : Int) : Prop :=
  ∃ rest, line = name ++ sep :: rest ∧ scanNumber rest = .number z

/-- What is asked of a call: it returns, and if it returns 0, it has assigned to each
requested variable the number on a line of the file for that field. -/
def InfoLaw (sep : UInt8) (val : α → Int) (file : Option File)
    (result : Except Fault (Int × (Bytes → Option α))) : Prop :=
  ∃ ret vars, result = .ok (ret, vars) ∧ (ret = 0 → ∃ f, file = some f ∧
    ∀ e ∈ requested ents, ∃ line ∈ Lines.getLines f.content, ∃ z, IsField sep e.name line z ∧
      ∃ a, vars e.name = some a ∧ val a = z)

/-- The first `k` lines that begin with the name of a requested field. -/
def hits (k : Nat) (lines : List Bytes) : List Bytes :=
  (lines.filter (fun line => (matchEnt ents line).isSome)).take k

def firstHits (f : File) : List Bytes :=
  hits ents (requested ents).length (Lines.getLines f.content)

/-- The number after the name of the field is that of a line for the field. -/
def Delivers (sep : UInt8) (val : α → Int) (f : File) (e : Ent) (line : Bytes) : Prop :=
  ∃ z, scanNumber (afterName e line) = .number z ∧
    ∃ field ∈ Lines.getLines f.content, IsField sep e.name field (val (conv z))

def InfoGiven (sep : UInt8) (val : α → Int) (file : Option File) : Prop :=
  ∀ f, file = some f →
    (∀ line ∈ firstHits ents f, ∀ e, matchEnt ents line = some e → line ≠ e.name) ∧
    (f.error = true ∧ ((firstHits ents f).length < (requested ents).length ∨
        ∃ line ∈ firstHits ents f, ¬ Lines.Terminated line) ∨
      ∀ e ∈ requested ents, ∃ line ∈ firstHits ents f,
        matchEnt ents line = some e ∧ Delivers conv sep val f e line)

def assignHits (lines : List Bytes) (vars : Bytes → Option α) : Bytes → Option α :=
  lines.foldl (fun vars line =>
    match matchEnt ents line with
    | none => vars
    | some e => storeField conv e line vars) vars

section Loop

variable {conv ents} {line : Bytes} {lines : List Bytes} {k : Nat}

theorem hits_skip (h : matchEnt ents line = none) : hits ents k (line :: lines) = hits ents k lines := by
  rw [hits, List.filter_cons_of_neg (by simp [h]), hits]

theorem hits_hit {e : Ent} (h : matchEnt ents line = some e) :
    hits ents (k + 1) (line :: lines) = line :: hits ents k lines := by
  rw [hits, List.filter_cons_of_pos (by simp [h]), List.take_succ_cons, hits]

theorem matchEnt_eq_some {e : Ent} (h : matchEnt ents line = some e) :
    e ∈ requested ents ∧ e.name <+: line := by
  have hprop := List.find?_some h
  rw [Bool.and_eq_true, List.isPrefixOf_iff_prefix] at hprop
  exact ⟨List.mem_filter.mpr ⟨List.mem_of_find?_eq_some h, hprop.1⟩, hprop.2⟩

theorem length_le_iff {e : Ent} (h : matchEnt ents line = some e) :
    line.length ≤ e.name.length ↔ line = e.name := by
  have hstart := (matchEnt_eq_some h).2
  constructor
  · intro hle
    exact (hstart.eq_of_length_le hle).symm
  · intro heq
    exact Nat.le_of_eq (congrArg List.length heq)

variable (conv) in
theorem readLines_short {s : InfoState α} {e : Ent} (hmem : line ∈ hits ents s.left lines)
    (hmatch : matchEnt ents line = some e) (hshort : line = e.name) :
    readLines conv ents lines s = .error .outOfBounds := by
  induction lines generalizing s with
  | nil => simp [hits] at hmem
  | cons first lines ih =>
    obtain ⟨left, vars, ended⟩ := s
    cases left with
    | zero => simp [hits] at hmem
    | succ left =>
      cases hfirst : matchEnt ents first with
      | none =>
        rw [hits_skip hfirst] at hmem
        simp only [readLines, hfirst, Nat.succ_ne_zero, if_false]
        exact ih hmem
      | some d =>
        rw [hits_hit hfirst, List.mem_cons] at hmem
        simp only [readLines, hfirst, Nat.succ_ne_zero, if_false]
        split_ifs with hlen
        · rfl
        · rcases hmem with rfl | hmem
          · obtain rfl := Option.some.inj (hfirst.symm.trans hmatch)
            exact absurd ((length_le_iff hfirst).mpr hshort) hlen
          · exact ih hmem

variable (conv) in
/-- Each step leaves the invariant for the lines that follow: what the hits assign, and
where the stream ends. -/
theorem readLines_ok {s : InfoState α} (hlines : ∀ l ∈ lines.dropLast, Lines.Terminated l)
    (hlong : ∀ l ∈ hits ents s.left lines, ∀ e, matchEnt ents l = some e → l ≠ e.name) :
    ∃ st', readLines conv ents lines s = .ok st' ∧
      st'.vars = assignHits conv ents (hits ents s.left lines) s.vars ∧
      (st'.ended = true ↔ s.ended = true ∨ (hits ents s.left lines).length < s.left ∨
        ∃ l ∈ hits ents s.left lines, ¬ Lines.Terminated l) := by
  induction lines generalizing s with
  | nil =>
    obtain ⟨left, vars, ended⟩ := s
    cases left with
    | zero => exact ⟨_, rfl, rfl, by simp [hits]⟩
    | succ left => exact ⟨_, rfl, rfl, by simp [hits]⟩
  | cons first lines ih =>
    obtain ⟨left, vars, ended⟩ := s
    have hrest : ∀ l ∈ lines.dropLast, Lines.Terminated l := by
      intro l hl
      cases lines with
      | nil => cases hl
      | cons second lines =>
        exact hlines l (by rw [List.dropLast_cons_cons]; exact List.mem_cons_of_mem first hl)
    -- a line without a line break is the last one
    have hlast : Lines.Terminated first ∨ lines = [] := by
      cases lines with
      | nil => exact .inr rfl
      | cons second lines => exact .inl (hlines first (by simp))
    cases left with
    | zero => exact ⟨_, rfl, rfl, by simp [hits]⟩
    | succ left =>
      cases hfirst : matchEnt ents first with
      | none =>
        rw [hits_skip hfirst] at hlong ⊢
        obtain ⟨st', hrun, hvars, hended⟩ := ih (s := ⟨left + 1, vars,
          ended || !decide (Lines.Terminated first)⟩) hrest hlong
        refine ⟨st', by simpa only [readLines, hfirst, Nat.succ_ne_zero, if_false] using hrun,
          hvars, hended.trans ?_⟩
        rcases hlast with hterm | rfl
        · simp [hterm]
        · simp [hits]
      | some e =>
        rw [hits_hit hfirst] at hlong ⊢
        have hlen : ¬ first.length ≤ e.name.length := by
          rw [length_le_iff hfirst]
          exact hlong first List.mem_cons_self e hfirst
        obtain ⟨st', hrun, hvars, hended⟩ := ih (s := ⟨left, storeField conv e first vars,
          ended || !decide (Lines.Terminated first)⟩) hrest
          (fun l hl => hlong l (List.mem_cons_of_mem first hl))
        refine ⟨st', by
          simpa only [readLines, hfirst, Nat.succ_ne_zero, if_false, if_neg hlen,
            Nat.add_sub_cancel] using hrun, ?_, hended.trans ?_⟩
        · rw [hvars, assignHits, assignHits, List.foldl_cons, hfirst]
        · simp only [Bool.or_eq_true, Bool.not_eq_true', decide_eq_false_iff_not, List.length_cons,
            Nat.succ_lt_succ_iff, List.exists_mem_cons_iff]
          tauto

end Loop

section Assign

variable {conv ents} {lines : List Bytes} {vars : Bytes → Option α} {e : Ent}

theorem storeField_other {d : Ent} {line name : Bytes} (h : d.name ≠ name) :
    storeField conv d line vars name = vars name := by
  cases hscan : scanNumber (afterName d line) with
  | number z =>
    simp only [storeField, hscan]
    exact Function.update_of_ne (Ne.symm h) _ _
  | eof => simp only [storeField, hscan]
  | mismatch => simp only [storeField, hscan]

theorem storeField_number {line : Bytes} {z : Int} (h : scanNumber (afterName e line) = .number z) :
    storeField conv e line vars e.name = some (conv z) := by
  simp only [storeField, h, Function.update_self]

theorem assignHits_cons (line : Bytes) :
    assignHits conv ents (line :: lines) vars = assignHits conv ents lines
      (match matchEnt ents line with
        | none => vars
        | some e => storeField conv e line vars) := rfl

theorem assignHits_other {name : Bytes}
    (h : ∀ line ∈ lines, ∀ d, matchEnt ents line = some d → d.name ≠ name) :
    assignHits conv ents lines vars name = vars name := by
  induction lines generalizing vars with
  | nil => rfl
  | cons line lines ih =>
    rw [assignHits_cons, ih (fun l hl => h l (List.mem_cons_of_mem line hl))]
    cases hmatch : matchEnt ents line with
    | none => rfl
    | some d => exact storeField_other (h line List.mem_cons_self d hmatch)

theorem exists_hit_of_assignHits {name : Bytes} {a : α}
    (h : assignHits conv ents lines vars name = some a) :
    vars name = some a ∨ ∃ line ∈ lines, ∃ d, matchEnt ents line = some d ∧ d.name = name ∧
      ∃ z, scanNumber (afterName d line) = .number z ∧ a = conv z := by
  induction lines generalizing vars with
  | nil => exact .inl h
  | cons line lines ih =>
    rw [assignHits_cons] at h
    rcases ih h with hfirst | ⟨l, hl, d, hd, hname, hz⟩
    · cases hmatch : matchEnt ents line with
      | none => exact .inl (by simpa [hmatch] using hfirst)
      | some d =>
        simp only [hmatch] at hfirst
        by_cases hname : d.name = name
        · cases hscan : scanNumber (afterName d line) with
          | number z =>
            subst hname
            rw [storeField_number hscan] at hfirst
            exact .inr ⟨line, List.mem_cons_self, d, hmatch, rfl, z, hscan,
              (Option.some.inj hfirst).symm⟩
          | eof => exact .inl (by simpa only [storeField, hscan] using hfirst)
          | mismatch => exact .inl (by simpa only [storeField, hscan] using hfirst)
        · rw [storeField_other hname] at hfirst
          exact .inl hfirst
    · exact .inr ⟨l, List.mem_cons_of_mem line hl, d, hd, hname, hz⟩

theorem assignHits_of_nodup {line : Bytes} {z : Int}
    (hnodup : (lines.filterMap (fun l => (matchEnt ents l).map Ent.name)).Nodup)
    (hline : line ∈ lines) (hmatch : matchEnt ents line = some e)
    (hscan : scanNumber (afterName e line) = .number z) :
    assignHits conv ents lines vars e.name = some (conv z) := by
  induction lines generalizing vars with
  | nil => cases hline
  | cons first lines ih =>
    rw [assignHits_cons]
    rcases List.mem_cons.mp hline with rfl | hrest
    · rw [List.filterMap_cons_some (by rw [hmatch]; rfl), List.nodup_cons, List.mem_filterMap] at hnodup
      have hother : ∀ l ∈ lines, ∀ d, matchEnt ents l = some d → d.name ≠ e.name := by
        intro l hl d hd hname
        exact hnodup.1 ⟨l, hl, by rw [hd, Option.map_some, hname]⟩
      rw [assignHits_other hother]
      simp only [hmatch]
      exact storeField_number hscan
    · refine ih (List.Nodup.sublist ?_ hnodup) hrest
      exact (List.sublist_cons_self first lines).filterMap _

/-- As many hits as there are requested fields, and one for each of these: no field has
two. -/
theorem nodup_names {hs : List Bytes} (hnames : ((requested ents).map Ent.name).Nodup)
    (hlen : hs.length ≤ (requested ents).length)
    (hall : ∀ e ∈ requested ents, ∃ line ∈ hs, matchEnt ents line = some e) :
    (hs.filterMap (fun l => (matchEnt ents l).map Ent.name)).Nodup := by
  have hsub : (requested ents).map Ent.name ⊆
      hs.filterMap (fun l => (matchEnt ents l).map Ent.name) := by
    intro name hname
    obtain ⟨e, he, rfl⟩ := List.mem_map.mp hname
    obtain ⟨line, hline, hmatch⟩ := hall e he
    exact List.mem_filterMap.mpr ⟨line, hline, by rw [hmatch, Option.map_some]⟩
  have hle : (hs.filterMap (fun l => (matchEnt ents l).map Ent.name)).length ≤
      ((requested ents).map Ent.name).length :=
    Nat.le_trans (List.length_filterMap_le _ hs) (by rwa [List.length_map])
  exact ((hnames.subperm hsub).perm_of_length_le hle).nodup_iff.mp hnames

end Assign

section Law

variable {ents} (sep : UInt8) (val : α → Int)

theorem fields_iff (hnames : ((requested ents).map Ent.name).Nodup) (f : File) :
    (∀ e ∈ requested ents, ∃ line ∈ Lines.getLines f.content, ∃ z, IsField sep e.name line z ∧
      ∃ a, assignHits conv ents (firstHits ents f) (fun _ => none) e.name = some a ∧ val a = z) ↔
    ∀ e ∈ requested ents, ∃ line ∈ firstHits ents f,
      matchEnt ents line = some e ∧ Delivers conv sep val f e line := by
  constructor
  · intro h e he
    obtain ⟨field, hfield, z, hz, a, ha, rfl⟩ := h e he
    rcases exists_hit_of_assignHits ha with hnone | ⟨line, hline, d, hd, hname, z, hscan, rfl⟩
    · cases hnone
    · obtain rfl : d = e := List.inj_on_of_nodup_map hnames (matchEnt_eq_some hd).1 he hname
      exact ⟨line, hline, hd, z, hscan, field, hfield, hz⟩
  · intro h e he
    have hlen : (firstHits ents f).length ≤ (requested ents).length := by
      rw [firstHits, hits, List.length_take]
      exact Nat.min_le_left _ _
    have hnodup := nodup_names hnames hlen (fun d hd => by
      obtain ⟨line, hline, hmatch, -⟩ := h d hd
      exact ⟨line, hline, hmatch⟩)
    obtain ⟨line, hline, hmatch, z, hscan, field, hfield, hz⟩ := h e he
    exact ⟨field, hfield, _, hz, conv z, assignHits_of_nodup hnodup hline hmatch hscan, rfl⟩

/-- A call does what is asked exactly when the file cannot be opened, or no hit is cut off
behind the name and either a read error is met or each field has its number. -/
theorem infoLaw_iff (hnames : ((requested ents).map Ent.name).Nodup) (file : Option File) :
    InfoLaw ents sep val file (getInfo conv ents file) ↔ InfoGiven conv ents sep val file := by
  cases file with
  | none =>
    refine iff_of_true ⟨1, fun _ => none, rfl, fun h => ?_⟩ (fun f hf => by cases hf)
    cases h
  | some f =>
    simp only [InfoGiven, Option.some.injEq, forall_eq']
    by_cases hlong : ∀ line ∈ firstHits ents f, ∀ e, matchEnt ents line = some e → line ≠ e.name
    · obtain ⟨st, hrun, hvars, hended⟩ := readLines_ok conv
        (s := ⟨(requested ents).length, fun _ => none, false⟩)
        (fun l hl => Lines.terminated_of_mem_dropLast hl) hlong
      have hresult : getInfo conv ents (some f) =
          .ok (if st.ended && f.error then 1 else 0, st.vars) := by
        simp only [getInfo, hrun, Except.map]
      have hend : st.ended = true ↔ (firstHits ents f).length < (requested ents).length ∨
          ∃ line ∈ firstHits ents f, ¬ Lines.Terminated line := by
        rw [hended]
        simp only [Bool.false_eq_true, false_or]
        rfl
      have hfields := fields_iff conv sep val hnames f
      rw [and_iff_right hlong, ← hend, ← hfields]
      by_cases herror : f.error = true ∧ st.ended = true
      · refine iff_of_true ⟨1, st.vars, ?_, fun h => by cases h⟩ (.inl herror)
        rw [hresult, herror.1, herror.2]
        rfl
      · have hzero : getInfo conv ents (some f) = .ok (0, st.vars) := by
          rw [hresult, if_neg (by simpa [and_comm] using herror)]
        rw [or_iff_right herror]
        constructor
        · intro hex
          obtain ⟨ret, vars, hret, hlaw⟩ := hex
          obtain ⟨rfl, rfl⟩ := Prod.mk.inj (Except.ok.inj (hzero.symm.trans hret))
          obtain ⟨f', hf, hall⟩ := hlaw rfl
          obtain rfl := Option.some.inj hf
          rwa [hvars] at hall
        · intro hall
          exact ⟨0, st.vars, hzero, fun _ => ⟨f, rfl, by rwa [hvars]⟩⟩
    · refine iff_of_false ?_ (fun h => hlong h.1)
      intro hex
      obtain ⟨ret, vars, hret, -⟩ := hex
      simp only [not_forall, not_not] at hlong
      obtain ⟨line, hline, e, hmatch, hshort⟩ := hlong
      have hfault := readLines_short conv
        (s := ⟨(requested ents).length, fun _ => none, false⟩) hline hmatch hshort
      simp only [getInfo, hfault, Except.map] at hret
      cases hret

end Law

end Slstatus
