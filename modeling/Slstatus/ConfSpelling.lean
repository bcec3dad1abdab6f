import Slstatus.ConfDocument

/-! The configurations that load_config can leave, and a document for each of them. -/

namespace Slstatus

/-- The names of a path, which dots divide. -/
def pathSteps : List Char → List (List Char)
  | [] => [[]]
  | c :: cs =>
    if c = '.' then [] :: pathSteps cs
    else
      match pathSteps cs with
      | [] => [[c]]
      | step :: steps => (c :: step) :: steps

def Setting.descend (s : Setting) (path : String) : Option Setting :=
  (pathSteps path.toList).foldl (fun t step => t.bind (·.member (String.ofList step))) (some s)

/-- libconfig, whose lookups lead through groups. -/
def libconfig : Libconfig Setting where
  lookup := Setting.descend
  getInt := fun | .int n => n | _ => 0
  lookupInt := fun s path =>
    match s.descend path with
    | some (.int n) => some n
    | _ => none
  lookupString := fun s path =>
    match s.descend path with
    | some (.string b) => some b
    | _ => none
  isList := fun | .list _ => true | _ => false
  elems := fun | .list entries => entries | _ => []

/-- The name that parse_function knows a component by. -/
def Func.name (f : Func) : Bytes :=
  (((functionNames true).find? (fun e => e.2 == f)).map (fun e => lit e.1)).getD []

def OnTextFits.name : OnTextFits → Bytes
  | .noScroll => lit "NO_SCROLL"
  | .fullSpaceSeparator => lit "FULL_SPACE_SEPARATOR"
  | .forceScroll => lit "FORCE_SCROLL"

def textField (name : String) (text : Option Bytes) : List (String × Setting) :=
  (text.map (fun b => (name, Setting.string b))).toList

def Arg.setting (m : Arg) : Setting :=
  .group (textField "function" (m.func.map Func.name) ++ (textField "format" m.fmt ++
    (textField "argument" m.args ++ (textField "status_no" m.statusNo ++
      [("update_interval", .int m.updateInterval.toInt32)]))))

def Config.mpdSetting (c : Config) : Setting :=
  .group (("title_length", .int c.mpdTitleLength) :: (textField "loop_text" c.mpdLoopText ++
    textField "on_text_fits" (some c.mpdOnTextFits.name)))

/-- The document that says what the configuration holds. -/
def Config.document (c : Config) : Setting :=
  .group (("interval", .int c.interval.toInt32) ::
    ("maximum_length", .int c.maximumStatusLength) ::
    (textField "unknown_string" c.unknownString ++
      [("modules", .list ((c.modules.getD []).map Arg.setting)), ("mpd", c.mpdSetting)]))

structure Arg.Loadable (haveMpd : Bool) (m : Arg) : Prop where
  func : ∀ f, m.func = some f → haveMpd = true ∨ f ≠ .mpdonair
  fmt : m.fmt ≠ none
  updateInterval : m.updateInterval.toNat < 2 ^ 31

/-- What load_config leaves, whatever it reads. -/
structure Config.Loadable (haveMpd : Bool) (c : Config) : Prop where
  interval : c.interval.toNat < 2 ^ 31
  modules : ∃ ms, c.modules = some ms ∧ ms ≠ [] ∧ c.numModules = ms.length ∧
    ∀ m ∈ ms, m.Loadable haveMpd
  mpdLoopText : haveMpd = true → c.mpdLoopText ≠ none
  mpd : haveMpd = false →
    c.mpdTitleLength = 20 ∧ c.mpdLoopText = none ∧ c.mpdOnTextFits = .noScroll

section Names

theorem parseFunction_name {haveMpd : Bool} {f : Func} (h : haveMpd = true ∨ f ≠ .mpdonair) :
    parseFunction haveMpd f.name = f := by
  cases haveMpd with
  | true => cases f <;> decide +kernel
  | false =>
    cases f with
    | mpdonair => simp at h
    | _ => decide +kernel

theorem parseFunction_known (haveMpd : Bool) (string : Bytes) :
    haveMpd = true ∨ parseFunction haveMpd string ≠ .mpdonair := by
  cases haveMpd with
  | true => exact .inl rfl
  | false =>
    refine .inr ?_
    have hnames : ∀ e ∈ functionNames false, e.2 ≠ .mpdonair := by decide +kernel
    unfold parseFunction
    split
    · rename_i e he
      exact hnames e (List.mem_of_find?_eq_some he)
    · exact nofun

theorem parseMpdOnTextFits_name (o : OnTextFits) : parseMpdOnTextFits o.name = o := by
  cases o <;> decide +kernel

end Names

section Leaves

variable {S : Type} (lib : Libconfig S) (haveMpd : Bool)

theorem getUnsignedInt_lt (item : Option S) {default : UInt32} (hd : default.toNat < 2 ^ 31) :
    ((getUnsignedInt lib item).getD default).toNat < 2 ^ 31 := by
  cases item with
  | none => exact hd
  | some x =>
    by_cases hneg : lib.getInt x < 0
    · rw [getUnsignedInt, if_pos hneg]
      exact hd
    · simp only [getUnsignedInt, if_neg hneg, Option.getD_some]
      rw [Int32.toNat_toUInt32_of_le (Int32.not_lt.mp hneg)]
      exact Int32.toNatClampNeg_lt _

theorem loadModule_loadable (t : S) : (loadModule lib haveMpd t).Loadable haveMpd := by
  refine ⟨?_, by simp [loadModule], getUnsignedInt_lt lib _ (by decide)⟩
  intro f hf
  obtain ⟨name, -, rfl⟩ := Option.map_eq_some_iff.mp hf
  exact parseFunction_known haveMpd name

theorem defaultArgs_loadable {m : Arg} (hm : m ∈ defaultArgs) : m.Loadable haveMpd := by
  obtain rfl : m = _ := List.mem_singleton.mp hm
  refine ⟨?_, by decide, by decide⟩
  intro f hf
  obtain rfl := Option.some.inj hf
  exact .inr (by decide)

theorem documentModules_loadable {d : S} {m : Arg} (hm : m ∈ documentModules lib haveMpd d) :
    m.Loadable haveMpd := by
  unfold documentModules at hm
  split at hm
  · exact defaultArgs_loadable haveMpd hm
  · split at hm
    · obtain ⟨t, -, rfl⟩ := List.mem_map.mp hm
      exact loadModule_loadable lib haveMpd t
    · exact defaultArgs_loadable haveMpd hm

theorem loadModules_mpd (d : S) (c : Config) :
    (loadModules lib haveMpd d c).mpdTitleLength = c.mpdTitleLength ∧
      (loadModules lib haveMpd d c).mpdLoopText = c.mpdLoopText ∧
      (loadModules lib haveMpd d c).mpdOnTextFits = c.mpdOnTextFits := by
  cases hlist : lib.lookup d "modules" with
  | none => simp [loadModules, hlist]
  | some list =>
    by_cases hl : lib.isList list = true
    · by_cases hempty : lib.elems list = []
      · simp [loadModules, hlist, hl, hempty]
      · simp [loadModules, hlist, hl, hempty]
    · simp [loadModules, hlist, hl]

theorem loadFallbackConfig_mpd (c : Config) :
    (loadFallbackConfig false c).mpdTitleLength = c.mpdTitleLength ∧
      (loadFallbackConfig false c).mpdLoopText = c.mpdLoopText ∧
      (loadFallbackConfig false c).mpdOnTextFits = c.mpdOnTextFits := by
  cases h : c.modules <;> simp [loadFallbackConfig, h]

theorem loadFallbackConfig_loopText (c : Config) :
    (loadFallbackConfig true c).mpdLoopText ≠ none := by
  cases h : c.modules <;> cases ht : c.mpdLoopText <;> simp [loadFallbackConfig, h, ht]

theorem loadConfig_loadable (doc : Option S) : (loadConfig lib haveMpd doc).Loadable haveMpd := by
  cases doc with
  | none =>
    have hms := loadFallbackConfig_none haveMpd (c := {}) rfl
    refine ⟨?_, ⟨_, hms.1, defaultArgs_ne_nil, hms.2, fun m hm => defaultArgs_loadable _ hm⟩, ?_, ?_⟩
    · rw [loadConfig, (loadFallbackConfig_numbers haveMpd {}).1]
      decide
    · rintro rfl
      exact loadFallbackConfig_loopText {}
    · rintro rfl
      exact loadFallbackConfig_mpd {}
  | some d =>
    obtain ⟨hinterval, -, hmodules, hnum⟩ := loadConfig_fields lib haveMpd d
    refine ⟨?_, ⟨_, hmodules, documentModules_ne_nil d, hnum,
      fun m hm => documentModules_loadable lib haveMpd hm⟩, ?_, ?_⟩
    · rw [hinterval]
      exact getUnsignedInt_lt lib _ (by decide)
    · rintro rfl
      exact loadFallbackConfig_loopText _
    · rintro rfl
      obtain ⟨hlen, htext, hfits⟩ := loadFallbackConfig_mpd (loadModules lib false d _)
      obtain ⟨hlen', htext', hfits'⟩ := loadModules_mpd lib false d _
      exact ⟨hlen.trans hlen', htext.trans htext', hfits.trans hfits'⟩

end Leaves

section Spelling

variable {haveMpd : Bool}

theorem find_textField {name key : String} {text : Option Bytes} :
    (textField name text).find? (fun e => e.1 == key) =
      if name = key then text.map (fun b => (name, Setting.string b)) else none := by
  by_cases h : name = key <;> cases text <;> simp [textField, h]

theorem descend_name {name : String} (h : pathSteps name.toList = [name.toList]) (s : Setting) :
    s.descend name = s.member name := by
  rw [Setting.descend, h]
  simp

theorem descend_field {path group : String} (name : String)
    (h : pathSteps path.toList = [group.toList, name.toList]) {s t : Setting}
    (ht : s.member group = some t) : s.descend path = t.member name := by
  rw [Setting.descend, h]
  simp [ht]

/-- A text that is left out is left NULL. -/
theorem lookupString_text {s : Setting} {path : String} {text : Option Bytes}
    (h : s.descend path = text.map Setting.string) :
    libconfig.lookupString s path = text := by
  cases text with
  | none => simp [libconfig, h]
  | some b => simp [libconfig, h]

theorem getUnsignedInt_spelled {n : UInt32} (h : n.toNat < 2 ^ 31) :
    getUnsignedInt libconfig (some (.int n.toInt32)) = some n := by
  have hnonneg : ¬ n.toInt32 < 0 := by
    have hpos : n.toInt32.toInt = n.toNat := BitVec.toInt_eq_toNat_of_lt (by simpa using by omega)
    rw [Int32.not_lt, Int32.le_iff_toInt_le, hpos]
    exact Int.natCast_nonneg _
  have hget : libconfig.getInt (.int n.toInt32) = n.toInt32 := rfl
  rw [getUnsignedInt, hget, if_neg hnonneg, UInt32.toUInt32_toInt32]

theorem setting_fields (m : Arg) :
    libconfig.lookupString m.setting "function" = m.func.map Func.name ∧
      libconfig.lookupString m.setting "format" = m.fmt ∧
      libconfig.lookupString m.setting "argument" = m.args ∧
      libconfig.lookupString m.setting "status_no" = m.statusNo ∧
      libconfig.lookup m.setting "update_interval" = some (.int m.updateInterval.toInt32) := by
  refine ⟨lookupString_text ?_, lookupString_text ?_, lookupString_text ?_, lookupString_text ?_,
    (descend_name (by decide +kernel) _).trans ?_⟩
  case refine_5 => simp [Arg.setting, Setting.member, find_textField]
  all_goals
    rw [descend_name (by decide +kernel)]
    simp [Arg.setting, Setting.member, find_textField, Function.comp_def]

theorem loadModule_setting {m : Arg} (h : m.Loadable haveMpd) :
    loadModule libconfig haveMpd m.setting = m := by
  obtain ⟨hfunc, hfmt, hargs, hno, hinterval⟩ := setting_fields m
  obtain ⟨func, fmt, args, statusNo, updateInterval⟩ := m
  obtain ⟨text, rfl⟩ := Option.ne_none_iff_exists'.mp h.fmt
  have hname : (func.map Func.name).map (parseFunction haveMpd) = func := by
    cases func with
    | none => rfl
    | some f => exact congrArg some (parseFunction_name (h.func f rfl))
  simp only [loadModule, hfunc, hfmt, hargs, hno, hinterval,
    getUnsignedInt_spelled h.updateInterval, Option.getD_some, hname]

theorem lookupInt_number {s : Setting} {path : String} {n : Int32}
    (h : s.descend path = some (.int n)) : libconfig.lookupInt s path = some n := by
  simp [libconfig, h]

theorem document_fields (c : Config) :
    libconfig.lookup c.document "interval" = some (.int c.interval.toInt32) ∧
      libconfig.lookupInt c.document "maximum_length" = some c.maximumStatusLength ∧
      libconfig.lookupString c.document "unknown_string" = c.unknownString ∧
      libconfig.lookup c.document "modules" =
        some (.list ((c.modules.getD []).map Arg.setting)) := by
  refine ⟨(descend_name (by decide +kernel) _).trans ?_, lookupInt_number ?_, lookupString_text ?_,
    (descend_name (by decide +kernel) _).trans ?_⟩
  case refine_1 => simp [Config.document, Setting.member]
  case refine_4 => simp [Config.document, Setting.member, find_textField]
  all_goals
    rw [descend_name (by decide +kernel)]
    simp [Config.document, Setting.member, find_textField, Function.comp_def]

theorem document_mpd (c : Config) :
    libconfig.lookupInt c.document "mpd.title_length" = some c.mpdTitleLength ∧
      libconfig.lookupString c.document "mpd.loop_text" = c.mpdLoopText ∧
      libconfig.lookupString c.document "mpd.on_text_fits" = some c.mpdOnTextFits.name := by
  have hgroup : c.document.member "mpd" = some c.mpdSetting := by
    simp [Config.document, Setting.member, find_textField]
  refine ⟨lookupInt_number ?_, lookupString_text ?_, lookupString_text ?_⟩
  case refine_1 =>
    rw [descend_field "title_length" (by decide +kernel) hgroup]
    simp [Config.mpdSetting, Setting.member]
  case refine_2 =>
    rw [descend_field "loop_text" (by decide +kernel) hgroup]
    simp [Config.mpdSetting, Setting.member, find_textField, Function.comp_def]
  case refine_3 =>
    rw [descend_field "on_text_fits" (by decide +kernel) hgroup]
    simp [Config.mpdSetting, Setting.member, find_textField]

theorem loadModules_document {c : Config} {ms : List Arg} (hms : c.modules = some ms)
    (hne : ms ≠ []) (h : ∀ m ∈ ms, m.Loadable haveMpd) (c' : Config) :
    loadModules libconfig haveMpd c.document c' =
      { c' with numModules := ms.length, modules := some ms } := by
  have hlist : libconfig.isList (.list (ms.map Arg.setting)) = true := rfl
  have helems : libconfig.elems (.list (ms.map Arg.setting)) = ms.map Arg.setting := rfl
  have hback : (ms.map Arg.setting).map (loadModule libconfig haveMpd) = ms := by
    rw [List.map_map]
    exact (List.map_congr_left (fun m hm => loadModule_setting (h m hm))).trans (List.map_id ms)
  simp only [loadModules, (document_fields c).2.2.2, hms, Option.getD_some, hlist, helems, hback,
    List.length_map, List.length_eq_zero_iff, if_neg hne, if_true]

theorem loadConfig_document {c : Config} (h : c.Loadable haveMpd) :
    loadConfig libconfig haveMpd (some c.document) = c := by
  obtain ⟨ms, hms, hne, hnum, hok⟩ := h.modules
  obtain ⟨hinterval, hmax, hunknown, -⟩ := document_fields c
  obtain ⟨hlen, htext, hfits⟩ := document_mpd c
  simp only [loadConfig, hinterval, getUnsignedInt_spelled h.interval, hmax, hunknown,
    Option.getD_some, Option.or_none, loadModules_document hms hne hok]
  cases haveMpd with
  | false =>
    obtain ⟨hlen', htext', hfits'⟩ := h.mpd rfl
    rcases c with ⟨interval, maximum, unknown, num, modules, len, text, fits⟩
    cases hms; cases hnum; cases hlen'; cases htext'; cases hfits'
    rfl
  | true =>
    obtain ⟨text, htext'⟩ := Option.ne_none_iff_exists'.mp (h.mpdLoopText rfl)
    simp only [if_true, loadMpdonair, hlen, htext, hfits, htext', Option.getD_some, Option.map_some,
      parseMpdOnTextFits_name, loadFallbackConfig]
    rcases c with ⟨interval, maximum, unknown, num, modules, len, text', fits⟩
    cases hms; cases hnum; cases htext'
    rfl

end Spelling

end Slstatus
