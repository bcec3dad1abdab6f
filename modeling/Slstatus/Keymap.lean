import Slstatus.Decimal
import Slstatus.Lib.Tokens

/-! `get_layout` of keymap.c: the layout of a group among the tokens of the symbols string
that the server gives. -/

namespace Slstatus

def invalidSymbols : List Bytes := [lit "evdev", lit "inet", lit "pc", lit "base"]

def validLayoutOrVariant (sym : Bytes) : Bool := !invalidSymbols.any (fun i => i.isPrefixOf sym)

def isGroupNumber (tok : Bytes) : Bool := tok.length = 1 && tok.all isDigit

def symbolSeparator (c : UInt8) : Bool := c = 43 || c = 58 || c = 95

def layoutLoop (grpNum grp : Nat) (layout : Option Bytes) (syms : Bytes) : Option Bytes :=
  match h : Tokens.strtok symbolSeparator syms with
  | none => layout
  | some (tok, rest) =>
    if grp ≤ grpNum then
      if !validLayoutOrVariant tok then layoutLoop grpNum grp layout rest
      -- ignore :2, :3, :4 (additional layout groups)
      else if isGroupNumber tok then layoutLoop grpNum grp layout rest
      else layoutLoop grpNum (grp + 1) (some tok) rest
    else layout
termination_by syms.length
decreasing_by all_goals exact (Tokens.strtok_eq_some h).2.2.2

def getLayout (syms : Bytes) (grpNum : Nat) : Option Bytes := layoutLoop grpNum 0 none syms

/-- A layout with or without a variant, as it stands in a symbols string. -/
structure LayoutName where
  text : Bytes
  ne_nil : text ≠ []
  plain : 43 ∉ text ∧ 58 ∉ text
  not_number : isGroupNumber text = false
  valid : validLayoutOrVariant text = true

def symbolsFrom : Nat → List LayoutName → Bytes
  | _, [] => []
  | i, name :: names =>
    43 :: name.text ++ (if i = 0 then [] else 58 :: decimal (i + 1)) ++ symbolsFrom (i + 1) names

/-- The symbols string of some groups, with `rest` for the options and the further symbols. -/
def symbols (names : List LayoutName) (rest : Bytes) : Bytes :=
  lit "pc" ++ symbolsFrom 0 names ++ 43 :: rest

/-- The tokens that the loop counts. -/
def counted (s : Bytes) : List Bytes :=
  (Tokens.tokens symbolSeparator s).filter (fun t => validLayoutOrVariant t && !isGroupNumber t)

theorem layoutLoop_eq (grpNum grp : Nat) (layout : Option Bytes) (syms : Bytes) :
    layoutLoop grpNum grp layout syms =
      ((counted syms).take (grpNum + 1 - grp)).getLast?.or layout := by
  fun_induction layoutLoop grpNum grp layout syms with
  | case1 grp layout syms hnext => simp [counted, Tokens.strtok_eq_none hnext]
  | case2 grp layout syms tok rest hnext hgrp hvalid ih =>
    obtain ⟨-, -, htokens, -⟩ := Tokens.strtok_eq_some hnext
    have hskip : counted syms = counted rest := by simp_all [counted]
    rw [ih, hskip]
  | case3 grp layout syms tok rest hnext hgrp hvalid hnumber ih =>
    obtain ⟨-, -, htokens, -⟩ := Tokens.strtok_eq_some hnext
    have hskip : counted syms = counted rest := by simp_all [counted]
    rw [ih, hskip]
  | case4 grp layout syms tok rest hnext hgrp hvalid hnumber ih =>
    obtain ⟨-, -, htokens, -⟩ := Tokens.strtok_eq_some hnext
    have hcount : counted syms = tok :: counted rest := by simp_all [counted]
    have hleft : grpNum + 1 - grp = grpNum + 1 - (grp + 1) + 1 := by omega
    rw [ih, hcount, hleft, List.take_succ_cons, List.getLast?_cons]
    cases ((counted rest).take (grpNum + 1 - (grp + 1))).getLast? <;> rfl
  | case5 grp layout syms tok rest hnext hgrp =>
    have hleft : grpNum + 1 - grp = 0 := by omega
    rw [hleft, List.take_zero]
    rfl

theorem getLayout_eq {syms : Bytes} {g : Nat} (h : g < (counted syms).length) :
    getLayout syms g = (counted syms)[g]? := by
  rw [getLayout, layoutLoop_eq, Option.or_none, Nat.sub_zero, List.getLast?_take]
  simp [h]

section Symbols

variable {s t : Bytes} {c : UInt8} {i : Nat} {names : List LayoutName} {rest : Bytes}

theorem counted_append (hc : symbolSeparator c = true) :
    counted (s ++ c :: t) = counted s ++ counted t := by
  rw [counted, Tokens.tokens_append_sep hc, List.filter_append]
  rfl

theorem counted_name {name : LayoutName} (h : 95 ∉ name.text) : counted name.text = [name.text] := by
  have hword : ∀ c ∈ name.text, symbolSeparator c = false := by
    intro c hc
    have h43 : c ≠ 43 := fun he => name.plain.1 (he ▸ hc)
    have h58 : c ≠ 58 := fun he => name.plain.2 (he ▸ hc)
    have h95 : c ≠ 95 := fun he => h (he ▸ hc)
    simp [symbolSeparator, h43, h58, h95]
  rw [counted, Tokens.tokens_word hword name.ne_nil]
  simp [name.valid, name.not_number]

/-- A number with more than one digit passes for a layout. -/
theorem counted_decimal (n : Nat) : counted (decimal n) = if n < 10 then [] else [decimal n] := by
  have hword : ∀ c ∈ decimal n, symbolSeparator c = false := by
    intro c hc
    have hdigit := isDigit_of_mem_decimal hc
    by_contra hsep
    simp only [symbolSeparator, Bool.not_eq_false, Bool.or_eq_true, decide_eq_true_eq] at hsep
    rcases hsep with (rfl | rfl) | rfl <;> cases hdigit
  have hvalid : validLayoutOrVariant (decimal n) = true := by
    rw [validLayoutOrVariant, Bool.not_eq_true', List.any_eq_false]
    intro p hp hstart
    have hletter : ∀ p ∈ invalidSymbols, ∃ c ∈ p, isDigit c = false := by decide +kernel
    obtain ⟨c, hc, hno⟩ := hletter p hp
    rw [List.isPrefixOf_iff_prefix] at hstart
    have hmem := hstart.subset hc
    exact Bool.false_ne_true (hno.symm.trans (isDigit_of_mem_decimal hmem))
  have hnumber : isGroupNumber (decimal n) = decide (n < 10) := by
    have hall : (decimal n).all isDigit = true :=
      List.all_eq_true.mpr (fun c hc => isDigit_of_mem_decimal hc)
    have hlen : (decimal n).length = 1 ↔ n < 10 := by
      have hpos := List.length_pos_of_ne_nil (decimal_ne_nil n)
      have hle : (decimal n).length ≤ 1 ↔ n < 10 ^ 1 := by
        rw [decimal, List.length_map]
        exact Nat.length_toDigits_le_iff (by omega) (by omega)
      omega
    simp only [isGroupNumber, hall, Bool.and_true, hlen]
  rw [counted, Tokens.tokens_word hword (decimal_ne_nil n)]
  by_cases h : n < 10 <;> simp [h, hvalid, hnumber]

/-- The layouts, and from the tenth on each with the number that follows it. -/
def layoutTokens : Nat → List LayoutName → List Bytes
  | _, [] => []
  | i, name :: names =>
    name.text :: (if i < 9 then [] else [decimal (i + 1)]) ++ layoutTokens (i + 1) names

theorem symbolsFrom_cons (i : Nat) (names : List LayoutName) (rest : Bytes) :
    ∃ u, symbolsFrom i names ++ 43 :: rest = 43 :: u := by
  cases names with
  | nil => exact ⟨rest, rfl⟩
  | cons name names => exact ⟨_, rfl⟩

variable (rest) in
theorem counted_symbolsFrom (h : ∀ name ∈ names, 95 ∉ name.text) :
    counted (symbolsFrom i names ++ 43 :: rest) = layoutTokens i names ++ counted rest := by
  have hplus : symbolSeparator 43 = true := rfl
  have hcolon : symbolSeparator 58 = true := rfl
  induction names generalizing i with
  | nil => exact counted_append (s := []) hplus
  | cons name names ih =>
    have hname := counted_name (h name List.mem_cons_self)
    have hrest := ih (i := i + 1) (fun d hd => h d (List.mem_cons_of_mem name hd))
    obtain ⟨u, hu⟩ := symbolsFrom_cons (i + 1) names rest
    rw [hu] at hrest
    have hskip : counted (43 :: u) = counted u := counted_append (s := []) hplus
    rw [hskip] at hrest
    have hgroup : counted (name.text ++ (if i = 0 then [] else 58 :: decimal (i + 1)) ++ 43 :: u) =
        name.text :: (if i < 9 then [] else [decimal (i + 1)]) ++ counted u := by
      by_cases hi : i = 0
      · simp only [hi, if_true, List.append_nil, counted_append hplus, hname]
        rfl
      · rw [if_neg hi, counted_append hplus, counted_append hcolon, hname, counted_decimal]
        have hten : i + 1 < 10 ↔ i < 9 := by omega
        by_cases h9 : i < 9 <;> simp [h9, hten]
    calc counted (symbolsFrom i (name :: names) ++ 43 :: rest)
        = counted (43 :: (name.text ++ (if i = 0 then [] else 58 :: decimal (i + 1)) ++ 43 :: u)) := by
          simp only [symbolsFrom, ← hu, List.cons_append, List.append_assoc]
      _ = counted (name.text ++ (if i = 0 then [] else 58 :: decimal (i + 1)) ++ 43 :: u) :=
          counted_append (s := []) hplus
      _ = layoutTokens i (name :: names) ++ counted rest := by
          rw [hgroup, hrest]
          simp [layoutTokens]

theorem layoutTokens_low (k : Nat) (h : i + k < 9) :
    (layoutTokens i names)[k]? = (names[k]?).map LayoutName.text := by
  induction names generalizing i k with
  | nil => rfl
  | cons name names ih =>
    cases k with
    | zero => rfl
    | succ k =>
      rw [layoutTokens, if_pos (by omega)]
      exact ih k (by omega)

theorem layoutTokens_drop (h : i ≤ 9) :
    (layoutTokens i names).drop (9 - i) = layoutTokens 9 (names.drop (9 - i)) := by
  induction names generalizing i with
  | nil => simp [layoutTokens]
  | cons name names ih =>
    rcases Nat.lt_or_eq_of_le h with hlt | rfl
    · have hleft : 9 - i = 9 - (i + 1) + 1 := by omega
      rw [layoutTokens, if_pos hlt, hleft]
      exact ih (by omega)
    · rfl

theorem layoutTokens_high (names : List LayoutName) (h : 9 ≤ i) (k : Nat) :
    (layoutTokens i names)[2 * k]? = (names[k]?).map LayoutName.text ∧
      (layoutTokens i names)[2 * k + 1]? = (names[k]?).map (fun _ => decimal (i + k + 1)) := by
  induction names generalizing i k with
  | nil => exact ⟨rfl, rfl⟩
  | cons name names ih =>
    rw [layoutTokens, if_neg (by omega)]
    cases k with
    | zero => exact ⟨rfl, rfl⟩
    | succ k =>
      obtain ⟨hname, hnumber⟩ := ih (i := i + 1) (by omega) k
      refine ⟨hname, hnumber.trans ?_⟩
      rw [List.getElem?_cons_succ, show i + (k + 1) + 1 = i + 1 + k + 1 by omega]

theorem layoutTokens_from_nine (names : List LayoutName) (k : Nat) :
    (layoutTokens 0 names)[9 + 2 * k]? = (names[9 + k]?).map LayoutName.text ∧
      (layoutTokens 0 names)[10 + 2 * k]? = (names[9 + k]?).map (fun _ => decimal (10 + k)) := by
  obtain ⟨hname, hnumber⟩ := layoutTokens_high (names.drop 9) (Nat.le_refl 9) k
  have hdrop : (layoutTokens 0 names).drop 9 = layoutTokens 9 (names.drop 9) :=
    layoutTokens_drop (Nat.zero_le 9)
  rw [← hdrop, List.getElem?_drop, List.getElem?_drop] at hname hnumber
  refine ⟨hname, ?_⟩
  rw [show 10 + 2 * k = 9 + (2 * k + 1) by omega, hnumber, show 9 + k + 1 = 10 + k by omega]

theorem length_le_layoutTokens (i : Nat) (names : List LayoutName) :
    names.length ≤ (layoutTokens i names).length := by
  induction names generalizing i with
  | nil => exact Nat.zero_le _
  | cons name names ih =>
    have hrest := ih (i + 1)
    simp only [layoutTokens, List.length_cons, List.length_append]
    omega

theorem counted_symbols (h : ∀ name ∈ names, 95 ∉ name.text) :
    counted (symbols names rest) = layoutTokens 0 names ++ counted rest := by
  obtain ⟨u, hu⟩ := symbolsFrom_cons 0 names rest
  have hfrom := counted_symbolsFrom rest (i := 0) h
  have hpc : counted (lit "pc") = [] := by decide +kernel
  have hplus : symbolSeparator 43 = true := rfl
  rw [hu] at hfrom
  rw [symbols, List.append_assoc, hu, counted_append hplus, hpc, List.nil_append, ← hfrom]
  exact (counted_append (s := []) hplus).symm

theorem getLayout_symbols (h : ∀ name ∈ names, 95 ∉ name.text) {g : Nat} (hg : g < names.length) :
    getLayout (symbols names rest) g = (layoutTokens 0 names)[g]? := by
  have hlen : g < (layoutTokens 0 names).length :=
    Nat.lt_of_lt_of_le hg (length_le_layoutTokens 0 names)
  rw [getLayout_eq (by rw [counted_symbols h, List.length_append]; omega), counted_symbols h,
    List.getElem?_append_left hlen]

theorem getLayout_separator {syms layout : Bytes} {g : Nat} (h : getLayout syms g = some layout) :
    95 ∉ layout := by
  rw [getLayout, layoutLoop_eq, Option.or_none] at h
  have hmem := List.mem_of_mem_take (List.mem_of_getLast? h)
  have hword := (Tokens.mem_tokens (List.mem_filter.mp hmem).1).2
  intro h95
  cases hword 95 h95

end Symbols

/-- The layout of each group is found exactly when no name contains an underscore and, if
there are more than ten, those from the eleventh on are what the tokens before them
happen to be. -/
theorem get_layout_iff (names : List LayoutName) (rest : Bytes) :
    (∀ g, g < names.length →
      getLayout (symbols names rest) g = (names[g]?).map LayoutName.text) ↔
    (∀ name ∈ names, 95 ∉ name.text) ∧ ∀ k,
      (10 + 2 * k < names.length →
        (names[10 + 2 * k]?).map LayoutName.text = some (decimal (10 + k))) ∧
      (11 + 2 * k < names.length →
        (names[11 + 2 * k]?).map LayoutName.text = (names[10 + k]?).map LayoutName.text) := by
  constructor
  · intro hall
    have hplain : ∀ name ∈ names, 95 ∉ name.text := by
      intro name hname
      obtain ⟨g, hg, rfl⟩ := List.getElem_of_mem hname
      have hfound := hall g hg
      rw [List.getElem?_eq_getElem hg] at hfound
      exact getLayout_separator hfound
    refine ⟨hplain, fun k => ⟨fun hk => ?_, fun hk => ?_⟩⟩
    · have hnine : 9 + k < names.length := by omega
      rw [← hall _ hk, getLayout_symbols hplain hk, (layoutTokens_from_nine names k).2,
        List.getElem?_eq_getElem hnine]
      rfl
    · have htoken := (layoutTokens_from_nine names (k + 1)).1
      rw [show 9 + 2 * (k + 1) = 11 + 2 * k by omega, show 9 + (k + 1) = 10 + k by omega] at htoken
      rw [← hall _ hk, getLayout_symbols hplain hk, htoken]
  · intro hcond g hg
    obtain ⟨hplain, hhigh⟩ := hcond
    rw [getLayout_symbols hplain hg]
    by_cases hlow : g < 9
    · exact layoutTokens_low g (by omega)
    · obtain ⟨k, hk⟩ : ∃ k, g = 9 + 2 * k ∨ g = 10 + 2 * k := ⟨(g - 9) / 2, by omega⟩
      rcases hk with rfl | rfl
      · rw [(layoutTokens_from_nine names k).1]
        cases k with
        | zero => rfl
        | succ k =>
          rw [show 9 + 2 * (k + 1) = 11 + 2 * k by omega] at hg ⊢
          rw [(hhigh k).2 hg, show 9 + (k + 1) = 10 + k by omega]
      · have hnine : 9 + k < names.length := by omega
        rw [(layoutTokens_from_nine names k).2, (hhigh k).1 hg, List.getElem?_eq_getElem hnine]
        rfl

def winkeys : LayoutName where
  text := lit "ru(phonetic_winkeys)"
  ne_nil := by decide +kernel
  plain := by decide +kernel
  not_number := by decide +kernel
  valid := by decide +kernel

theorem get_layout_cut :
    getLayout (symbols [winkeys] (lit "inet(evdev)")) 0 = some (lit "ru(phonetic") ∧
      some (lit "ru(phonetic") ≠ some winkeys.text := by
  have hlen : 0 < (counted (symbols [winkeys] (lit "inet(evdev)"))).length := by decide +kernel
  rw [getLayout_eq hlen]
  decide +kernel

end Slstatus
