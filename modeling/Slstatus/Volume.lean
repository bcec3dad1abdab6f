import Mathlib.Algebra.Group.Nat.Defs
import Slstatus.Basic
import Slstatus.Lib.KeyedList

/-! The sndio part of volume.c: the list of audio controls that the callbacks of sndio
keep, and the loop of `vol_perc` over it. -/

namespace Slstatus

inductive SioctlType
  | num | sw | other (code : UInt32)
  deriving DecidableEq

/-- The fields of `struct sioctl_desc` that `ondesc` reads. -/
structure SioctlDesc where
  addr : UInt32
  type : SioctlType
  func : Bytes
  group : Bytes
  node0 : Bytes
  maxval : UInt32

inductive CtrlType
  | level | mute
  deriving DecidableEq

structure Control where
  addr : UInt32
  type : CtrlType
  maxval : UInt32
  val : UInt32
  deriving DecidableEq

/-- The type under which a control is kept; only output.level and output.mute are. -/
def SioctlDesc.ctrlType (desc : SioctlDesc) : Option CtrlType :=
  if desc.group ≠ [] ∨ desc.node0 ≠ lit "output" then none
  else if desc.type = .num ∧ desc.func = lit "level" then some .level
  else if desc.type = .sw ∧ desc.func = lit "mute" then some .mute
  else none

def SioctlDesc.control (desc : SioctlDesc) (val : Int32) : Option Control :=
  desc.ctrlType.map (fun type => ⟨desc.addr, type, desc.maxval, val.toUInt32⟩)

def ondesc (desc : Option SioctlDesc) (val : Int32) (controls : List Control) : List Control :=
  match desc with
  | none => controls
  | some desc =>
    let controls := KeyedList.erase Control.addr desc.addr controls
    match desc.control val with
    | none => controls
    | some c => c :: controls

def onval (addr val : UInt32) (controls : List Control) : List Control :=
  KeyedList.modify Control.addr addr (fun c => { c with val }) controls

inductive Callback
  | ondesc (desc : Option SioctlDesc) (val : Int32)
  | onval (addr val : UInt32)

def Callback.apply (controls : List Control) : Callback → List Control
  | .ondesc desc val => Slstatus.ondesc desc val controls
  | .onval addr val => Slstatus.onval addr val controls

def controlsAfter (calls : List Callback) : List Control := calls.foldl Callback.apply []

/-- The loop of `vol_perc`, from a value on. -/
def volumeLoop : List Control → Int → Except Fault Int
  | [], value => .ok value
  | c :: controls, value =>
    if c.type = .mute ∧ c.val = 1 then volumeLoop controls 0
    else if c.type = .level then
      if c.maxval = 0 then .error .divByZero
      else
        let v := ((c.val * 100 + c.maxval / 2) / c.maxval).toInt32.toInt
        -- the minimum over several channels
        volumeLoop controls (if v < value then v else value)
    else volumeLoop controls value

def Control.percent (c : Control) : Nat :=
  (100 * c.val.toNat + c.maxval.toNat / 2) / c.maxval.toNat

def levels (controls : List Control) : List Nat :=
  (controls.filter (·.type = .level)).map Control.percent

def Muted (controls : List Control) : Prop := ∃ c ∈ controls, c.type = .mute ∧ c.val = 1

instance (controls : List Control) : Decidable (Muted controls) :=
  inferInstanceAs (Decidable (∃ c ∈ controls, _))

/-- A level control whose percentage the unsigned arithmetic gets right. -/
def Control.InRange (c : Control) : Prop :=
  c.type = .level → 1 ≤ c.maxval ∧ c.maxval ≤ 42000000 ∧ c.val ≤ c.maxval

section Loop

variable {c : Control} {controls : List Control}

theorem Control.percent_le (h : c.val ≤ c.maxval) (hpos : 1 ≤ c.maxval) : c.percent ≤ 100 := by
  have hval : c.val.toNat ≤ c.maxval.toNat := h
  have hmax : 1 ≤ c.maxval.toNat := hpos
  have hlt : c.percent < 101 := by
    rw [Control.percent, Nat.div_lt_iff_lt_mul (by omega)]
    omega
  omega

theorem toInt32_toInt {x : UInt32} (h : 2 * x.toNat < 2 ^ 32) : x.toInt32.toInt = x.toNat :=
  BitVec.toInt_eq_toNat_of_lt h

theorem Control.percent_eq (h : c.val ≤ c.maxval) (hpos : 1 ≤ c.maxval)
    (hmax : c.maxval ≤ 42000000) :
    ((c.val * 100 + c.maxval / 2) / c.maxval).toInt32.toInt = c.percent := by
  have hle := Control.percent_le h hpos
  have hval : c.val.toNat ≤ c.maxval.toNat := h
  have hbound : c.maxval.toNat ≤ 42000000 := hmax
  have hword : ((c.val * 100 + c.maxval / 2) / c.maxval).toNat = c.percent := by
    have hmul : c.val.toNat * 100 % 2 ^ 32 = 100 * c.val.toNat := by omega
    have hsum : (100 * c.val.toNat + c.maxval.toNat / 2) % 2 ^ 32 =
        100 * c.val.toNat + c.maxval.toNat / 2 := by omega
    rw [UInt32.toNat_div, UInt32.toNat_add, UInt32.toNat_mul, UInt32.toNat_div, Control.percent,
      show (100 : UInt32).toNat = 100 from rfl, show (2 : UInt32).toNat = 2 from rfl, hmul, hsum]
  rw [toInt32_toInt (by omega), hword]

theorem volumeLoop_muted (hmute : c.type = .mute ∧ c.val = 1) (value : Int) :
    volumeLoop (c :: controls) value = volumeLoop controls 0 := if_pos hmute

theorem volumeLoop_mute (hmute : c.type = .mute) (hval : c.val ≠ 1) (value : Int) :
    volumeLoop (c :: controls) value = volumeLoop controls value := by
  have hnot : ¬ (c.type = .mute ∧ c.val = 1) := fun h => hval h.2
  have hlevel : c.type ≠ .level := by
    rw [hmute]
    decide
  rw [volumeLoop, if_neg hnot, if_neg hlevel]

theorem volumeLoop_level (hlevel : c.type = .level) (h : c.InRange) (value : Nat) :
    volumeLoop (c :: controls) value = volumeLoop controls (min value c.percent : Nat) := by
  obtain ⟨hpos, hmax, hval⟩ := h hlevel
  have hnot : ¬ (c.type = .mute ∧ c.val = 1) := by
    rw [hlevel]
    intro hmute
    cases hmute.1
  have hzero : c.maxval ≠ 0 := by
    intro hzero
    rw [hzero] at hpos
    exact absurd hpos (by decide)
  have hmin : (if (c.percent : Int) < value then (c.percent : Int) else value) =
      (min value c.percent : Nat) := by
    split_ifs with hlt
    · omega
    · omega
  rw [volumeLoop, if_neg hnot, if_pos hlevel, if_neg hzero, Control.percent_eq hval hpos hmax, ← hmin]

theorem levels_cons_level (hlevel : c.type = .level) :
    levels (c :: controls) = c.percent :: levels controls := by
  simp [levels, hlevel]

theorem levels_cons_mute (hmute : c.type = .mute) : levels (c :: controls) = levels controls := by
  simp [levels, hmute]

theorem muted_cons : Muted (c :: controls) ↔ (c.type = .mute ∧ c.val = 1) ∨ Muted controls := by
  simp [Muted]

/-- Assigning 0 and taking the minimum commute, since no level is below 0. -/
theorem volumeLoop_eq (h : ∀ c ∈ controls, c.InRange) (value : Nat) :
    volumeLoop controls value =
      .ok ((if Muted controls then 0 else (levels controls).foldl min value : Nat) : Int) := by
  induction controls generalizing value with
  | nil => simp [volumeLoop, Muted, levels]
  | cons c controls ih =>
    have hc := h c List.mem_cons_self
    have hrest := ih (fun d hd => h d (List.mem_cons_of_mem c hd))
    cases htype : c.type with
    | level =>
      have hmuted : Muted (c :: controls) ↔ Muted controls := by simp [muted_cons, htype]
      rw [volumeLoop_level htype hc, hrest, levels_cons_level htype, List.foldl_cons]
      simp only [hmuted]
    | mute =>
      rw [levels_cons_mute htype]
      by_cases hval : c.val = 1
      · have hmuted : Muted (c :: controls) := muted_cons.mpr (.inl ⟨htype, hval⟩)
        have hzero : (levels controls).foldl min 0 = 0 := by simp [List.foldl_min]
        have hloop := hrest 0
        rw [hzero, ite_self] at hloop
        rw [volumeLoop_muted ⟨htype, hval⟩, if_pos hmuted]
        exact hloop
      · have hmuted : Muted (c :: controls) ↔ Muted controls := by simp [muted_cons, hval]
        rw [volumeLoop_mute htype hval, hrest]
        simp only [hmuted]

end Loop

end Slstatus
