import Slstatus.ConfRelied

/-! The configuration documents for which load_config leaves a state that main
and the components can rely on. -/

namespace Slstatus

variable {S : Type} (lib : Libconfig S) (haveMpd : Bool)

structure ModuleOk (t : S) : Prop where
  function : lib.lookupString t "function" ≠ none
  statusNo : lib.lookupString t "status_no" ≠ none
  updateInterval : ∀ item, lib.lookup t "update_interval" = some item → lib.getInt item ≠ 0
  argument : ∀ name, lib.lookupString t "function" = some name →
    (parseFunction haveMpd name).readsArgument = true → lib.lookupString t "argument" ≠ none

structure DocumentOk (d : S) : Prop where
  interval : ∀ item, lib.lookup d "interval" = some item → lib.getInt item ≠ 0
  maximumLength : ∀ n, lib.lookupInt d "maximum_length" = some n → 1 ≤ n
  modules : ∀ list, lib.lookup d "modules" = some list → lib.isList list = true →
    ∀ t ∈ lib.elems list, ModuleOk lib haveMpd t

def documentModules (d : S) : List Arg :=
  match lib.lookup d "modules" with
  | none => defaultArgs
  | some list =>
    if lib.isList list = true ∧ lib.elems list ≠ [] then
      (lib.elems list).map (loadModule lib haveMpd)
    else defaultArgs

variable {lib haveMpd}

theorem toUInt32_pos {n : Int32} (h : n ≠ 0) : 1 ≤ n.toUInt32 := by
  have hne : n.toUInt32 ≠ 0 := by
    intro h0
    have hn : n.toUInt32.toInt32 = (0 : UInt32).toInt32 := congrArg UInt32.toInt32 h0
    exact h (by simpa using hn)
  rw [UInt32.le_iff_toNat_le]
  have := mt UInt32.toNat_inj.mp hne
  simp at this ⊢
  omega

theorem getUnsignedInt_pos {item : Option S} {default : UInt32} (hd : 1 ≤ default) :
    1 ≤ (getUnsignedInt lib item).getD default ↔ ∀ x, item = some x → lib.getInt x ≠ 0 := by
  cases item with
  | none => simpa [getUnsignedInt] using hd
  | some x =>
    by_cases hneg : lib.getInt x < 0
    · have hne : lib.getInt x ≠ 0 := by
        intro h0
        rw [h0] at hneg
        exact absurd hneg (by decide)
      simpa [getUnsignedInt, hneg, hne] using hd
    · by_cases hzero : lib.getInt x = 0
      · have h0 : Int32.toUInt32 0 = 0 := rfl
        simp [getUnsignedInt, hzero, h0]
      · simpa [getUnsignedInt, hneg, hzero] using toUInt32_pos hzero

theorem loadModule_relied_iff {t : S} :
    (loadModule lib haveMpd t).Relied ↔ ModuleOk lib haveMpd t := by
  have hinterval : 1 ≤ (getUnsignedInt lib (lib.lookup t "update_interval")).getD 1 ↔
      ∀ x, lib.lookup t "update_interval" = some x → lib.getInt x ≠ 0 :=
    getUnsignedInt_pos (by decide)
  constructor
  · intro h
    refine ⟨?_, h.statusNo, hinterval.mp h.updateInterval, ?_⟩
    · intro hnone
      exact h.func (by simp [loadModule, hnone])
    · intro name hname hreads
      exact h.args _ (by simp [loadModule, hname]) hreads
  · intro h
    refine ⟨?_, by simp [loadModule], h.statusNo, hinterval.mpr h.updateInterval, ?_⟩
    · simpa [loadModule] using h.function
    · intro f hf hreads
      obtain ⟨name, hname, rfl⟩ := Option.map_eq_some_iff.mp hf
      exact h.argument name hname hreads

theorem defaultArgs_relied {m : Arg} (h : m ∈ defaultArgs) : m.Relied := by
  obtain rfl : m = _ := List.mem_singleton.mp h
  exact ⟨by decide, by decide, by decide, by decide, by simp⟩

theorem documentModules_relied_iff {d : S} :
    (∀ m ∈ documentModules lib haveMpd d, m.Relied) ↔
      ∀ list, lib.lookup d "modules" = some list → lib.isList list = true →
        ∀ t ∈ lib.elems list, ModuleOk lib haveMpd t := by
  cases hlist : lib.lookup d "modules" with
  | none =>
    simp only [documentModules, hlist]
    exact iff_of_true (fun m hm => defaultArgs_relied hm) (by simp)
  | some list =>
    by_cases hentries : lib.isList list = true ∧ lib.elems list ≠ []
    · simp [documentModules, hlist, hentries, loadModule_relied_iff]
    · simp only [documentModules, hlist, if_neg hentries]
      refine iff_of_true (fun m hm => defaultArgs_relied hm) ?_
      intro list' heq hl t ht
      cases heq
      exact absurd ⟨hl, List.ne_nil_of_mem ht⟩ hentries

variable (lib haveMpd) in
theorem loadModules_modules (d : S) {c : Config} (hc : c.modules = none) :
    ((loadModules lib haveMpd d c).modules = none ∧
      documentModules lib haveMpd d = defaultArgs) ∨
    ((loadModules lib haveMpd d c).modules = some (documentModules lib haveMpd d) ∧
      (loadModules lib haveMpd d c).numModules = (documentModules lib haveMpd d).length) := by
  cases hlist : lib.lookup d "modules" with
  | none => exact .inl (by simp [loadModules, documentModules, hlist, hc])
  | some list =>
    by_cases hl : lib.isList list = true
    · by_cases hempty : lib.elems list = []
      · exact .inl (by simp [loadModules, documentModules, hlist, hl, hempty, hc])
      · exact .inr (by simp [loadModules, documentModules, hlist, hl, hempty])
    · exact .inl (by simp [loadModules, documentModules, hlist, hl, hc])

variable (lib haveMpd) in
theorem loadModules_numbers (d : S) (c : Config) :
    (loadModules lib haveMpd d c).interval = c.interval ∧
      (loadModules lib haveMpd d c).maximumStatusLength = c.maximumStatusLength := by
  cases hlist : lib.lookup d "modules" with
  | none => simp [loadModules, hlist]
  | some list =>
    by_cases hl : lib.isList list = true
    · by_cases hempty : lib.elems list = []
      · simp [loadModules, hlist, hl, hempty]
      · simp [loadModules, hlist, hl, hempty]
    · simp [loadModules, hlist, hl]

variable (haveMpd) in
theorem loadFallbackConfig_none {c : Config} (hc : c.modules = none) :
    (loadFallbackConfig haveMpd c).modules = some defaultArgs ∧
      (loadFallbackConfig haveMpd c).numModules = defaultArgs.length := by
  cases haveMpd with
  | false => simp [loadFallbackConfig, hc]
  | true => simp [loadFallbackConfig, hc]

variable (haveMpd) in
theorem loadFallbackConfig_some {c : Config} {ms : List Arg} (hc : c.modules = some ms) :
    (loadFallbackConfig haveMpd c).modules = some ms ∧
      (loadFallbackConfig haveMpd c).numModules = c.numModules := by
  cases haveMpd with
  | false => simp [loadFallbackConfig, hc]
  | true => simp [loadFallbackConfig, hc]

variable (haveMpd) in
theorem loadFallbackConfig_numbers (c : Config) :
    (loadFallbackConfig haveMpd c).interval = c.interval ∧
      (loadFallbackConfig haveMpd c).maximumStatusLength = c.maximumStatusLength := by
  cases hc : c.modules with
  | none => cases haveMpd <;> simp [loadFallbackConfig, hc]
  | some ms => cases haveMpd <;> simp [loadFallbackConfig, hc]

variable (lib haveMpd) in
theorem loadConfig_fields (d : S) :
    let c := loadConfig lib haveMpd (some d)
    c.interval = (getUnsignedInt lib (lib.lookup d "interval")).getD 1000 ∧
      c.maximumStatusLength = (lib.lookupInt d "maximum_length").getD 2048 ∧
      c.modules = some (documentModules lib haveMpd d) ∧
      c.numModules = (documentModules lib haveMpd d).length := by
  let c₀ : Config :=
    { interval := (getUnsignedInt lib (lib.lookup d "interval")).getD 1000
      maximumStatusLength := (lib.lookupInt d "maximum_length").getD 2048
      unknownString := (lib.lookupString d "unknown_string").or none }
  let c₁ := loadModules lib haveMpd d c₀
  let c₂ := if haveMpd then loadMpdonair lib d c₁ else c₁
  have hload : loadConfig lib haveMpd (some d) = loadFallbackConfig haveMpd c₂ := rfl
  have hmpd : c₂.interval = c₁.interval ∧ c₂.maximumStatusLength = c₁.maximumStatusLength ∧
      c₂.modules = c₁.modules ∧ c₂.numModules = c₁.numModules := by
    cases haveMpd with
    | false => exact ⟨rfl, rfl, rfl, rfl⟩
    | true => exact ⟨rfl, rfl, rfl, rfl⟩
  obtain ⟨hinterval, hmax, hmodules, hnum⟩ := hmpd
  have hnumbers₁ := loadModules_numbers lib haveMpd d c₀
  have hnumbers := loadFallbackConfig_numbers haveMpd c₂
  rw [hload]
  refine ⟨?_, ?_, ?_⟩
  · rw [hnumbers.1, hinterval, hnumbers₁.1]
  · rw [hnumbers.2, hmax, hnumbers₁.2]
  · rcases loadModules_modules lib haveMpd d (c := c₀) rfl with ⟨hnone, hdefault⟩ | ⟨hsome, hlen⟩
    · rw [hdefault]
      exact loadFallbackConfig_none haveMpd (hmodules.trans hnone)
    · obtain ⟨hms, hn⟩ := loadFallbackConfig_some haveMpd (hmodules.trans hsome)
      exact ⟨hms, hn.trans (hnum.trans hlen)⟩

theorem defaultArgs_ne_nil : defaultArgs ≠ [] := List.cons_ne_nil _ _

theorem documentModules_ne_nil (d : S) : documentModules lib haveMpd d ≠ [] := by
  unfold documentModules
  split
  · exact defaultArgs_ne_nil
  · split
    · rename_i h
      simpa using h.2
    · exact defaultArgs_ne_nil

theorem loadConfig_relied (d : S) :
    (loadConfig lib haveMpd (some d)).Relied ↔ DocumentOk lib haveMpd d := by
  obtain ⟨hinterval, hmax, hmodules, hnum⟩ := loadConfig_fields lib haveMpd d
  constructor
  · intro h
    refine ⟨?_, ?_, ?_⟩
    · exact (getUnsignedInt_pos (by decide)).mp (hinterval ▸ h.interval)
    · intro n hn
      have hle := h.maximumStatusLength
      rwa [hmax, hn] at hle
    · obtain ⟨ms, hms, -, hrel⟩ := h.modules
      rw [hmodules] at hms
      obtain rfl := Option.some.inj hms
      exact documentModules_relied_iff.mp hrel
  · intro h
    refine ⟨?_, ⟨_, hmodules, hnum.symm, documentModules_relied_iff.mpr h.modules⟩, ?_, ?_⟩
    · rw [hnum]
      exact List.length_pos_iff.mpr (documentModules_ne_nil d)
    · rw [hmax]
      cases hn : lib.lookupInt d "maximum_length" with
      | none => decide
      | some n => exact h.maximumLength n hn
    · rw [hinterval]
      exact (getUnsignedInt_pos (by decide)).mpr h.interval

theorem loadConfig_none_relied : (loadConfig lib haveMpd none).Relied := by
  refine ⟨?_, ⟨defaultArgs, ?_, ?_, fun m hm => defaultArgs_relied hm⟩, ?_, ?_⟩ <;>
    cases haveMpd <;> simp [loadConfig, loadFallbackConfig, defaultArgs]

inductive Setting
  | int (n : Int32)
  | string (s : Bytes)
  | group (fields : List (String × Setting))
  | list (entries : List Setting)

def Setting.member (s : Setting) (name : String) : Option Setting :=
  match s with
  | .group fields => (fields.find? (fun e => e.1 == name)).map Prod.snd
  | _ => none

def settings : Libconfig Setting where
  lookup := Setting.member
  getInt := fun | .int n => n | _ => 0
  lookupInt := fun s name =>
    match s.member name with
    | some (.int n) => some n
    | _ => none
  lookupString := fun s name =>
    match s.member name with
    | some (.string b) => some b
    | _ => none
  isList := fun | .list _ => true | _ => false
  elems := fun | .list entries => entries | _ => []

/-- load_config leaves a state main can rely on, and the loop then never divides by
zero or uses a NULL pointer, exactly for the documents in which every number that
is set is positive or ignored and every entry of the modules list is complete. -/
theorem loadConfig_relied_iff {S : Type} (lib : Libconfig S) (haveMpd : Bool) (doc : Option S) :
    ((loadConfig lib haveMpd doc).Relied ∧ (loadConfig lib haveMpd doc).RunsSafely) ↔
      ∀ d, doc = some d → DocumentOk lib haveMpd d := by
  cases doc with
  | none =>
    exact iff_of_true ⟨loadConfig_none_relied, loadConfig_none_relied.runsSafely⟩ (by simp)
  | some d =>
    constructor
    · intro h d' heq
      cases heq
      exact (loadConfig_relied d).mp h.1
    · intro h
      have hrel := (loadConfig_relied d).mpr (h d rfl)
      exact ⟨hrel, hrel.runsSafely⟩

theorem loadConfig_null_status_no :
    let doc : Setting := .group [("modules", .list [.group [("function", .string (lit "uptime"))]])]
    ¬ ((loadConfig settings false (some doc)).Relied ∧
      (loadConfig settings false (some doc)).RunsSafely) := by
  intro doc h
  have hfault : (mainTick (loadConfig settings false (some doc)) 0 (fun _ => {}) {}).2.1 =
      .faulted .nullPointer := by decide
  exact (h.2 0 (fun _ => {}) {} .nullPointer hfault).2 rfl

end Slstatus
