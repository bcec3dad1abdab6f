import Mathlib.Data.List.Induction
import Mathlib.Data.List.Perm.Basic
import Slstatus.Volume

/-! The list of controls against the map that the history of the callbacks describes,
and the percentage that `vol_perc` reads off it in whatever order it stands. -/

namespace Slstatus

def Callback.describes (addr : UInt32) : Callback → Prop
  | .ondesc (some desc) _ => desc.addr = addr
  | _ => False

def Callback.valueFor (addr : UInt32) : Callback → Option UInt32
  | .onval addr' val => if addr' = addr then some val else none
  | .ondesc .. => none

/-- The latest description of the address is that of the control, and the latest value
for the address after it, if there is one, is its value. -/
def Described (calls : List Callback) (addr : UInt32) (c : Control) : Prop :=
  ∃ before desc val after c₀, calls = before ++ .ondesc (some desc) val :: after ∧
    desc.addr = addr ∧ (∀ call ∈ after, ¬ call.describes addr) ∧ desc.control val = some c₀ ∧
    c = { c₀ with val := (after.filterMap (Callback.valueFor addr)).getLast?.getD c₀.val }

/-- What a callback does to a map from addresses to controls. -/
def describe (map : UInt32 → Option Control) : Callback → UInt32 → Option Control
  | .ondesc none _ => map
  | .ondesc (some desc) val => Function.update map desc.addr (desc.control val)
  | .onval addr val => Function.update map addr ((map addr).map (fun c => { c with val }))

section Refinement

variable {controls : List Control}

theorem control_addr {desc : SioctlDesc} {val : Int32} {c : Control}
    (h : desc.control val = some c) : c.addr = desc.addr := by
  obtain ⟨type, -, rfl⟩ := Option.map_eq_some_iff.mp h
  rfl

theorem unique_apply (hu : KeyedList.Unique Control.addr controls) (call : Callback) :
    KeyedList.Unique Control.addr (call.apply controls) := by
  cases call with
  | onval addr val => exact hu.modify (fun _ => rfl)
  | ondesc desc val =>
    cases desc with
    | none => exact hu
    | some desc =>
      cases hc : desc.control val with
      | none =>
        simp only [Callback.apply, ondesc, hc]
        exact hu.erase desc.addr
      | some c =>
        simp only [Callback.apply, ondesc, hc, ← control_addr hc]
        exact hu.replace c

theorem lookup_apply (hu : KeyedList.Unique Control.addr controls) (call : Callback) :
    KeyedList.lookup Control.addr (call.apply controls) =
      describe (KeyedList.lookup Control.addr controls) call := by
  cases call with
  | onval addr val => exact KeyedList.lookup_modify (fun _ => rfl)
  | ondesc desc val =>
    cases desc with
    | none => rfl
    | some desc =>
      cases hc : desc.control val with
      | none =>
        simp only [Callback.apply, ondesc, describe, hc]
        exact KeyedList.lookup_erase hu
      | some c =>
        simp only [Callback.apply, ondesc, describe, hc, ← control_addr hc]
        exact KeyedList.lookup_replace c

theorem controlsAfter_refines (calls : List Callback) :
    KeyedList.Unique Control.addr (controlsAfter calls) ∧
      KeyedList.lookup Control.addr (controlsAfter calls) =
        calls.foldl describe (fun _ => none) := by
  induction calls using List.reverseRecOn with
  | nil => exact ⟨List.nodup_nil, rfl⟩
  | append_singleton calls call ih =>
    obtain ⟨hu, hmap⟩ := ih
    have hnext : controlsAfter (calls ++ [call]) = call.apply (controlsAfter calls) := by
      rw [controlsAfter, List.foldl_append]
      rfl
    rw [hnext, List.foldl_append, ← hmap]
    exact ⟨unique_apply hu call, lookup_apply hu call⟩

end Refinement

section History

variable {calls : List Callback} {call : Callback} {addr : UInt32} {c : Control}

theorem describe_of_not_describes (h : ¬ call.describes addr) (map : UInt32 → Option Control) :
    describe map call addr =
      (map addr).map (fun c => { c with val := (call.valueFor addr).getD c.val }) := by
  cases call with
  | onval addr' val =>
    by_cases ha : addr' = addr
    · subst ha
      simp [describe, Callback.valueFor]
    · simp [describe, Callback.valueFor, ha, Function.update_of_ne (Ne.symm ha)]
  | ondesc desc val =>
    cases desc with
    | none => simp [describe, Callback.valueFor]
    | some desc =>
      have ha : addr ≠ desc.addr := fun heq => h heq.symm
      simp [describe, Callback.valueFor, Function.update_of_ne ha]

theorem described_snoc_self {desc : SioctlDesc} {val : Int32} :
    Described (calls ++ [.ondesc (some desc) val]) desc.addr c ↔ desc.control val = some c := by
  constructor
  · intro hex
    obtain ⟨before, desc', val', after, c₀, hcalls, -, hlatest, hc₀, rfl⟩ := hex
    cases after using List.reverseRecOn with
    | nil =>
      obtain ⟨-, hlast⟩ := List.append_inj' hcalls rfl
      cases hlast
      exact hc₀
    | append_singleton after last =>
      rw [← List.cons_append, ← List.append_assoc] at hcalls
      obtain ⟨-, hlast⟩ := List.append_inj' hcalls rfl
      cases hlast
      exact absurd rfl (hlatest (.ondesc (some desc) val) (by simp))
  · intro hc
    exact ⟨calls, desc, val, [], c, rfl, rfl, by simp, hc, rfl⟩

theorem described_snoc_of_not (h : ¬ call.describes addr) :
    Described (calls ++ [call]) addr c ↔
      ∃ c', Described calls addr c' ∧ c = { c' with val := (call.valueFor addr).getD c'.val } := by
  have hvalue : ∀ (after : List Callback) (val : UInt32),
      ((after ++ [call]).filterMap (Callback.valueFor addr)).getLast?.getD val =
        (call.valueFor addr).getD
          ((after.filterMap (Callback.valueFor addr)).getLast?.getD val) := by
    intro after val
    rw [List.filterMap_append]
    cases hcall : call.valueFor addr with
    | none => simp [hcall]
    | some v => simp [hcall]
  constructor
  · intro hex
    obtain ⟨before, desc, val, after, c₀, hcalls, haddr, hlatest, hc₀, rfl⟩ := hex
    cases after using List.reverseRecOn with
    | nil =>
      obtain ⟨-, hlast⟩ := List.append_inj' hcalls rfl
      cases hlast
      exact absurd haddr h
    | append_singleton after last =>
      rw [← List.cons_append, ← List.append_assoc] at hcalls
      obtain ⟨hbefore, hlast⟩ := List.append_inj' hcalls rfl
      cases hlast
      refine ⟨_, ⟨before, desc, val, after, c₀, hbefore, haddr, ?_, hc₀, rfl⟩, ?_⟩
      · intro call' hmem
        exact hlatest call' (List.mem_append_left _ hmem)
      · rw [hvalue]
  · intro hex
    obtain ⟨c', ⟨before, desc, val, after, c₀, rfl, haddr, hlatest, hc₀, rfl⟩, rfl⟩ := hex
    refine ⟨before, desc, val, after ++ [call], c₀, by simp, haddr, ?_, hc₀, ?_⟩
    · intro call' hmem
      rcases List.mem_append.mp hmem with hbefore | hlast
      · exact hlatest call' hbefore
      · rw [List.mem_singleton.mp hlast]
        exact h
    · rw [hvalue]

theorem foldl_describe_iff :
    calls.foldl describe (fun _ => none) addr = some c ↔ Described calls addr c := by
  induction calls using List.reverseRecOn generalizing c with
  | nil =>
    constructor
    · intro h
      cases h
    · intro hex
      obtain ⟨before, desc, val, after, c₀, hcalls, -⟩ := hex
      exact absurd hcalls.symm (by simp)
  | append_singleton calls call ih =>
    rw [List.foldl_append]
    by_cases hdesc : call.describes addr
    · cases call with
      | onval addr' val => cases hdesc
      | ondesc desc val =>
        cases desc with
        | none => cases hdesc
        | some desc =>
          cases hdesc
          rw [described_snoc_self]
          simp [describe]
    · rw [described_snoc_of_not hdesc, List.foldl_cons, List.foldl_nil,
        describe_of_not_describes hdesc, Option.map_eq_some_iff]
      apply exists_congr
      intro c'
      rw [ih]
      exact and_congr_right (fun _ => eq_comm)

end History

theorem Described.addr_eq {calls : List Callback} {addr : UInt32} {c : Control}
    (h : Described calls addr c) : c.addr = addr := by
  obtain ⟨before, desc, val, after, c₀, -, haddr, -, hc₀, rfl⟩ := h
  exact (control_addr hc₀).trans haddr

theorem mem_controlsAfter_iff {calls : List Callback} {addr : UInt32} {c : Control} :
    (c ∈ controlsAfter calls ∧ c.addr = addr) ↔ Described calls addr c := by
  obtain ⟨hu, hmap⟩ := controlsAfter_refines calls
  rw [KeyedList.mem_iff_lookup hu, hmap, foldl_describe_iff]
  constructor
  · intro h
    obtain ⟨hc, rfl⟩ := h
    exact hc
  · intro hc
    rw [hc.addr_eq]
    exact ⟨hc, rfl⟩

section Value

variable {controls controls' : List Control}

theorem levels_le (h : ∀ c ∈ controls, c.InRange) {v : Nat} (hv : v ∈ levels controls) : v ≤ 100 := by
  obtain ⟨c, hc, rfl⟩ := List.mem_map.mp hv
  obtain ⟨hmem, hlevel⟩ := List.mem_filter.mp hc
  obtain ⟨hpos, -, hval⟩ := h c hmem (of_decide_eq_true hlevel)
  exact Control.percent_le hval hpos

theorem foldl_min_levels (h : ∀ c ∈ controls, c.InRange) :
    (levels controls).foldl min 100 = (levels controls).min?.getD 100 := by
  rw [List.foldl_min]
  cases hmin : (levels controls).min? with
  | none => rfl
  | some v =>
    have hv := levels_le h (List.min?_mem hmin)
    exact Nat.min_eq_right hv

theorem muted_perm (h : controls'.Perm controls) : Muted controls' ↔ Muted controls := by
  simp only [Muted, h.mem_iff]

theorem volumeLoop_perm (h : ∀ c ∈ controls, c.InRange) (hperm : controls'.Perm controls)
    (value : Nat) : volumeLoop controls' value = volumeLoop controls value := by
  have h' : ∀ c ∈ controls', c.InRange := fun c hc => h c (hperm.mem_iff.mp hc)
  have hlevels : (levels controls').Perm (levels controls) := (hperm.filter _).map _
  rw [volumeLoop_eq h', volumeLoop_eq h, hlevels.foldl_eq]
  simp only [muted_perm hperm]

end Value

/-- The list of controls holds each address once and is the map that the callbacks
describe. While its levels are in range, `vol_perc` prints 0 if it is muted and the
smallest level otherwise, in whatever order the controls stand. -/
theorem sndio_volume (calls : List Callback) :
    ((controlsAfter calls).map Control.addr).Nodup ∧
    (∀ addr c, (c ∈ controlsAfter calls ∧ c.addr = addr) ↔ Described calls addr c) ∧
    ((∀ c ∈ controlsAfter calls, c.InRange) →
      ∃ value : Nat, value ≤ 100 ∧
        value = (if Muted (controlsAfter calls) then 0
          else (levels (controlsAfter calls)).min?.getD 100) ∧
        volumeLoop (controlsAfter calls) 100 = .ok value ∧
        ∀ controls, controls.Perm (controlsAfter calls) → volumeLoop controls 100 = .ok value) := by
  refine ⟨(controlsAfter_refines calls).1, fun addr c => mem_controlsAfter_iff, ?_⟩
  intro h
  have hloop := volumeLoop_eq h 100
  rw [foldl_min_levels h] at hloop
  refine ⟨_, ?_, rfl, hloop, ?_⟩
  · split_ifs
    · exact Nat.zero_le 100
    · rw [← foldl_min_levels h, List.foldl_min]
      exact Nat.min_le_left _ _
  · intro controls hperm
    exact (volumeLoop_perm h hperm 100).trans hloop

def stereo : List Callback :=
  let level (addr : UInt32) : SioctlDesc := ⟨addr, .num, lit "level", [], lit "output", 255⟩
  [.ondesc (some (level 1)) 255, .ondesc (some (level 2)) 200, .onval 1 100,
    .ondesc (some ⟨3, .sw, lit "mute", [], lit "output", 1⟩) 0, .ondesc none 0]

theorem sndio_volume_stereo : ∃ value : Nat, value ≤ 100 ∧
    value = (if Muted (controlsAfter stereo) then 0
      else (levels (controlsAfter stereo)).min?.getD 100) ∧
    volumeLoop (controlsAfter stereo) 100 = .ok value ∧
    ∀ controls, controls.Perm (controlsAfter stereo) → volumeLoop controls 100 = .ok value := by
  apply (sndio_volume stereo).2.2
  have hcontrols : controlsAfter stereo =
      [⟨3, .mute, 1, 0⟩, ⟨2, .level, 255, 200⟩, ⟨1, .level, 255, 100⟩] := by decide
  rw [hcontrols]
  intro c hc hlevel
  simp only [List.mem_cons, List.not_mem_nil, or_false] at hc
  rcases hc with rfl | rfl | rfl
  · cases hlevel
  · decide
  · decide

end Slstatus
