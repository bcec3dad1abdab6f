import Slstatus.FmtHuman
import Slstatus.Scan

/-! `battery_remaining` of battery.c on Linux. The double quotient is taken as an exact
rational. -/

namespace Slstatus

def powerSupplyStatus : Bytes := lit "/sys/class/power_supply/%s/status"

def powerSupplyCharge : Bytes := lit "/sys/class/power_supply/%s/charge_now"

def powerSupplyEnergy : Bytes := lit "/sys/class/power_supply/%s/energy_now"

def powerSupplyCurrent : Bytes := lit "/sys/class/power_supply/%s/current_now"

def powerSupplyPower : Bytes := lit "/sys/class/power_supply/%s/power_now"

/-- What the files contain that `access` and `fopen` find readable. -/
abbrev Files := Bytes → Option Bytes

/-- The format that is chosen, with the path that is left in the caller's array. -/
def pick (files : Files) (bat f1 f2 : Bytes) : Except Fault (Option (Bytes × Bytes)) := do
  let (ret, path) ← esnprintf 4096 f1 [bat]
  if 0 < ret ∧ (files path).isSome then return some (f1, path)
  let (ret, path) ← esnprintf 4096 f2 [bat]
  if 0 < ret ∧ (files path).isSome then return some (f2, path)
  return none

def isStateByte (c : UInt8) : Bool := (97 ≤ c && c ≤ 122) || (65 ≤ c && c ≤ 90) || c = 32

/-- `pscanf(path, "%12[a-zA-Z ]", state)`, with `none` where it does not return 1. -/
def pscanfState (files : Files) (path : Bytes) : Option Bytes :=
  match files path with
  | none => none
  | some content =>
    let state := (content.take 12).takeWhile isStateByte
    if state = [] then none else some state

/-- `pscanf(path, "%ju", &n)`: what it returns, and what it assigns. -/
def pscanfUint (files : Files) (path : Bytes) : Int × Option UInt64 :=
  match files path with
  | none => (-1, none)
  | some content =>
    match scanNumber content with
    | .eof => (-1, none)
    | .mismatch => (0, none)
    | .number z => (1, some (toUintmax z))

def assigned (var : Option UInt64) : Except Fault UInt64 :=
  match var with
  | none => .error .unassigned
  | some n => .ok n

def remainingText (chargeNow currentNow : UInt64) : Option Bytes :=
  let timeleft : ℚ := chargeNow.toNat / currentNow.toNat
  let h := timeleft.floor.toNat
  let m := ((timeleft - h) * 60).floor.toNat
  bprintf (decimal h ++ lit "h " ++ decimal m ++ lit "m")

def batteryRemaining (files : Files) (bat : Bytes) : Except Fault (Option Bytes) := do
  let (ret, path) ← esnprintf 4096 powerSupplyStatus [bat]
  if ret < 0 then return none
  match pscanfState files path with
  | none => return none
  | some state =>
    match ← pick files bat powerSupplyCharge powerSupplyEnergy with
    | none => return none
    | some (_, path) =>
      let (ret, chargeNow) := pscanfUint files path
      if ret < 0 then return none
      if state = lit "Discharging" then
        match ← pick files bat powerSupplyCurrent powerSupplyPower with
        | none => return none
        | some (_, path) =>
          let (ret, currentNow) := pscanfUint files path
          if ret < 0 then return none
          let currentNow ← assigned currentNow
          if currentNow = 0 then return none
          let chargeNow ← assigned chargeNow
          return remainingText chargeNow currentNow
      else return some []

def Discharging (files : Files) (bat : Bytes) : Prop :=
  ∃ path, vsnprintf powerSupplyStatus [bat] = some path ∧ path.length < 4096 ∧
    pscanfState files path = some (lit "Discharging")

def Paired (f g : Bytes) : Prop :=
  f = powerSupplyCharge ∧ g = powerSupplyCurrent ∨ f = powerSupplyEnergy ∧ g = powerSupplyPower

/-- The file begins with a number that is not negative, and `n` is what `%ju` makes of it. -/
def Converted (files : Files) (path : Bytes) (n : Nat) : Prop :=
  ∃ content z, files path = some content ∧ scanNumber content = .number z ∧ 0 ≤ z ∧
    n = (toUintmax z).toNat

/-- NULL, or the hours and minutes of two figures that belong together. -/
def RemainingLaw (files : Files) (bat : Bytes) : Prop :=
  batteryRemaining files bat = .ok none ∨
  ∃ f path g path' now rate h m,
    pick files bat powerSupplyCharge powerSupplyEnergy = .ok (some (f, path)) ∧
    pick files bat powerSupplyCurrent powerSupplyPower = .ok (some (g, path')) ∧
    Paired f g ∧ Converted files path now ∧ Converted files path' rate ∧
    batteryRemaining files bat = .ok (some (decimal h ++ lit "h " ++ decimal m ++ lit "m")) ∧
    m < 60 ∧ 60 * h + m = 60 * now / rate

def Scans (files : Files) (bat f1 f2 f : Bytes) (s : Scanned) : Prop :=
  ∃ path content, pick files bat f1 f2 = .ok (some (f, path)) ∧ files path = some content ∧
    scanNumber content = s

/-- Where both picked files have something to scan, the rate is 0 or both are numbers that
are not negative, of files that belong together. -/
def RemainingGiven (files : Files) (bat : Bytes) : Prop :=
  ∀ f s g t, Scans files bat powerSupplyCharge powerSupplyEnergy f s →
    Scans files bat powerSupplyCurrent powerSupplyPower g t → s ≠ .eof → t ≠ .eof →
    t = .number 0 ∨ Paired f g ∧ ∃ now rate, s = .number now ∧ t = .number rate ∧ 0 ≤ now ∧ 0 ≤ rate

section Minutes

variable {now rate : Nat}

theorem hours_eq (now rate : Nat) : ((now : ℚ) / rate).floor.toNat = now / rate := by
  have hfloor : ((now : ℚ) / rate).floor = ⌊(now : ℚ) / rate⌋ := rfl
  rw [hfloor, Rat.floor_natCast_div_natCast]
  rfl

/-- Both truncations together lose nothing but the seconds. -/
theorem minutes_eq (h : 0 < rate) :
    (((now : ℚ) / rate - (now / rate : Nat)) * 60).floor.toNat = 60 * (now % rate) / rate := by
  have hrate : (rate : ℚ) ≠ 0 := by exact_mod_cast h.ne'
  have hrest : ((now : ℚ) / rate - (now / rate : Nat)) * 60 = (60 * (now % rate) : Nat) / rate := by
    have hmod : (now : ℚ) = (now % rate : Nat) + rate * (now / rate : Nat) := by
      exact_mod_cast (Nat.mod_add_div now rate).symm
    push_cast
    field_simp
    linarith
  rw [hrest, hours_eq]

theorem minutes_lt (h : 0 < rate) : 60 * (now % rate) / rate < 60 := by
  rw [Nat.div_lt_iff_lt_mul h]
  have := Nat.mod_lt now h
  omega

theorem hours_minutes (h : 0 < rate) :
    60 * (now / rate) + 60 * (now % rate) / rate = 60 * now / rate := by
  have hsplit : 60 * now = 60 * (now % rate) + rate * (60 * (now / rate)) := by
    calc 60 * now = 60 * (now % rate + rate * (now / rate)) := by rw [Nat.mod_add_div]
      _ = 60 * (now % rate) + rate * (60 * (now / rate)) := by ring
  rw [hsplit, Nat.add_mul_div_left _ _ h, Nat.add_comm]

theorem remainingText_eq {now rate : UInt64} (h : rate ≠ 0) :
    remainingText now rate = some (decimal (now.toNat / rate.toNat) ++ lit "h " ++
      decimal (60 * (now.toNat % rate.toNat) / rate.toNat) ++ lit "m") := by
  have hpos : 0 < rate.toNat := Nat.pos_of_ne_zero (fun he => h (UInt64.toNat.inj he))
  have hhours : (decimal (now.toNat / rate.toNat)).length ≤ 20 := by
    refine decimal_length_le (by omega) ?_
    have := Nat.div_le_self now.toNat rate.toNat
    have := now.toNat_lt
    omega
  have hminutes : (decimal (60 * (now.toNat % rate.toNat) / rate.toNat)).length ≤ 2 := by
    refine decimal_length_le (by omega) ?_
    have : 60 * (now.toNat % rate.toNat) / rate.toNat < 60 := minutes_lt hpos
    omega
  have htext : (lit "h ").length = 2 ∧ (lit "m").length = 1 := by decide
  simp only [remainingText, hours_eq, minutes_eq hpos, bprintf]
  rw [if_neg]
  simp only [List.length_append]
  omega

end Minutes

section Remaining

variable {files : Files} {bat : Bytes}

variable (files) in
theorem pick_cases {f1 f2 t1 t2 : Bytes} (h1 : vsnprintf f1 [bat] = some t1)
    (h2 : vsnprintf f2 [bat] = some t2) :
    pick files bat f1 f2 = .ok none ∨ ∃ f s, Scans files bat f1 f2 f s := by
  obtain ⟨⟨ret1, path1⟩, hout1⟩ := esnprintf_ok 4096 h1
  obtain ⟨⟨ret2, path2⟩, hout2⟩ := esnprintf_ok 4096 h2
  have hpick : pick files bat f1 f2 =
      if 0 < ret1 ∧ (files path1).isSome then .ok (some (f1, path1))
      else if 0 < ret2 ∧ (files path2).isSome then .ok (some (f2, path2)) else .ok none := by
    simp only [pick, hout1, hout2, bind, Except.bind, pure, Except.pure]
  by_cases hread1 : 0 < ret1 ∧ (files path1).isSome
  · obtain ⟨content, hcontent⟩ := Option.isSome_iff_exists.mp hread1.2
    exact .inr ⟨f1, _, path1, content, by rw [hpick, if_pos hread1], hcontent, rfl⟩
  · by_cases hread2 : 0 < ret2 ∧ (files path2).isSome
    · obtain ⟨content, hcontent⟩ := Option.isSome_iff_exists.mp hread2.2
      exact .inr ⟨f2, _, path2, content, by rw [hpick, if_neg hread1, if_pos hread2], hcontent, rfl⟩
    · exact .inl (by rw [hpick, if_neg hread1, if_neg hread2])

/-- What comes out for the scans of the two files; the rate is read first. -/
def remainingOf : Scanned → Scanned → Except Fault (Option Bytes)
  | .eof, _ => .ok none
  | _, .eof => .ok none
  | _, .mismatch => .error .unassigned
  | .mismatch, .number rate =>
    if toUintmax rate = 0 then .ok none else .error .unassigned
  | .number now, .number rate =>
    if toUintmax rate = 0 then .ok none
    else .ok (remainingText (toUintmax now) (toUintmax rate))

theorem toUintmax_eq_zero {z : Int} (h : toUintmax z = 0) : z = 0 := by
  have hnat := congrArg UInt64.toNat h
  rw [toUintmax] at hnat
  split_ifs at hnat with hbig
  · cases hnat
  · rw [UInt64.ofInt, UInt64.toNat_ofNat'] at hnat
    simp only [UInt64.toNat_zero] at hnat
    omega

theorem remainingOf_none {s t : Scanned} (h : s = .eof ∨ t = .eof ∨ t = .number 0) :
    remainingOf s t = .ok none := by
  rcases h with rfl | rfl | rfl
  · rfl
  · cases s <;> rfl
  · cases s <;> rfl

section Picked

variable (h : Discharging files bat)

include h

theorem batteryRemaining_none
    (hnow : pick files bat powerSupplyCharge powerSupplyEnergy = .ok none) :
    batteryRemaining files bat = .ok none := by
  obtain ⟨path, hpath, hfit, hstate⟩ := h
  have hret : ¬ (path.length : Int) < 0 := by omega
  rw [batteryRemaining, esnprintf_fits hpath hfit]
  simp only [bind, Except.bind, if_neg hret, hstate, hnow, pure, Except.pure]

theorem batteryRemaining_noRate {f : Bytes} {s : Scanned}
    (hs : Scans files bat powerSupplyCharge powerSupplyEnergy f s)
    (hrate : pick files bat powerSupplyCurrent powerSupplyPower = .ok none) :
    batteryRemaining files bat = .ok none := by
  obtain ⟨path, hpath, hfit, hstate⟩ := h
  obtain ⟨path', content, hpick, hfile, rfl⟩ := hs
  have hret : ¬ (path.length : Int) < 0 := by omega
  rw [batteryRemaining, esnprintf_fits hpath hfit]
  simp only [bind, Except.bind, if_neg hret, hstate, hpick, hrate, pure, Except.pure, if_true, ite_self]

theorem batteryRemaining_eq {f g : Bytes} {s t : Scanned}
    (hs : Scans files bat powerSupplyCharge powerSupplyEnergy f s)
    (ht : Scans files bat powerSupplyCurrent powerSupplyPower g t) :
    batteryRemaining files bat = remainingOf s t := by
  obtain ⟨path, hpath, hfit, hstate⟩ := h
  obtain ⟨path', content, hpick, hfile, rfl⟩ := hs
  obtain ⟨path'', content', hpick', hfile', rfl⟩ := ht
  have hret : ¬ (path.length : Int) < 0 := by omega
  rw [batteryRemaining, esnprintf_fits hpath hfit]
  simp only [bind, Except.bind, if_neg hret, hstate, hpick, hpick', pscanfUint, hfile, hfile',
    pure, Except.pure, if_true]
  generalize scanNumber content = s
  generalize scanNumber content' = t
  cases s <;> cases t <;> rfl

end Picked

theorem Scans.unique {f1 f2 f g : Bytes} {s t : Scanned} (hs : Scans files bat f1 f2 f s)
    (ht : Scans files bat f1 f2 g t) : f = g ∧ s = t := by
  obtain ⟨path, content, hpick, hfile, rfl⟩ := hs
  obtain ⟨path', content', hpick', hfile', rfl⟩ := ht
  obtain ⟨rfl, rfl⟩ := Prod.mk.inj (Option.some.inj (Except.ok.inj (hpick.symm.trans hpick')))
  obtain rfl := Option.some.inj (hfile.symm.trans hfile')
  exact ⟨rfl, rfl⟩

theorem not_scans {f1 f2 f : Bytes} {s : Scanned} (h : pick files bat f1 f2 = .ok none) :
    ¬ Scans files bat f1 f2 f s := by
  intro hs
  obtain ⟨path, content, hpick, -, -⟩ := hs
  cases h.symm.trans hpick

theorem Scans.converted {f1 f2 f path : Bytes} {s : Scanned} {n : Nat}
    (hs : Scans files bat f1 f2 f s) (hpick : pick files bat f1 f2 = .ok (some (f, path))) :
    Converted files path n ↔ ∃ z, s = .number z ∧ 0 ≤ z ∧ n = (toUintmax z).toNat := by
  obtain ⟨path', content, hpick', hfile, rfl⟩ := hs
  obtain ⟨-, rfl⟩ := Prod.mk.inj (Option.some.inj (Except.ok.inj (hpick.symm.trans hpick')))
  constructor
  · intro hconv
    obtain ⟨content', z, hfile', hscan, hz, hn⟩ := hconv
    obtain rfl := Option.some.inj (hfile.symm.trans hfile')
    exact ⟨z, hscan, hz, hn⟩
  · intro hnum
    obtain ⟨z, hscan, hz, hn⟩ := hnum
    exact ⟨content, z, hfile, hscan, hz, hn⟩

theorem remainingLaw_iff {f g : Bytes} {s t : Scanned}
    (hs : Scans files bat powerSupplyCharge powerSupplyEnergy f s)
    (ht : Scans files bat powerSupplyCurrent powerSupplyPower g t) :
    RemainingLaw files bat ↔ batteryRemaining files bat = .ok none ∨
      Paired f g ∧ ∃ now rate, s = .number now ∧ t = .number rate ∧ 0 ≤ now ∧ 0 ≤ rate ∧
        ∃ h m, batteryRemaining files bat =
            .ok (some (decimal h ++ lit "h " ++ decimal m ++ lit "m")) ∧
          m < 60 ∧ 60 * h + m = 60 * (toUintmax now).toNat / (toUintmax rate).toNat := by
  refine or_congr_right ⟨?_, ?_⟩
  · intro hex
    obtain ⟨f', path, g', path', now, rate, h, m, hpick, hpick', hpair, hnow, hrate, htext⟩ := hex
    have hs' := hs
    have ht' := ht
    obtain ⟨p, content, hp, -, -⟩ := hs'
    obtain ⟨p', content', hp', -, -⟩ := ht'
    obtain ⟨rfl, rfl⟩ := Prod.mk.inj (Option.some.inj (Except.ok.inj (hpick.symm.trans hp)))
    obtain ⟨rfl, rfl⟩ := Prod.mk.inj (Option.some.inj (Except.ok.inj (hpick'.symm.trans hp')))
    obtain ⟨z, rfl, hz, rfl⟩ := (hs.converted hpick).mp hnow
    obtain ⟨w, rfl, hw, rfl⟩ := (ht.converted hpick').mp hrate
    exact ⟨hpair, z, w, rfl, rfl, hz, hw, h, m, htext⟩
  · intro hex
    obtain ⟨hpair, z, w, rfl, rfl, hz, hw, h, m, htext⟩ := hex
    have hs' := hs
    have ht' := ht
    obtain ⟨path, content, hpick, -, -⟩ := hs'
    obtain ⟨path', content', hpick', -, -⟩ := ht'
    exact ⟨f, path, g, path', _, _, h, m, hpick, hpick', hpair,
      (hs.converted hpick).mpr ⟨z, rfl, hz, rfl⟩, (ht.converted hpick').mpr ⟨w, rfl, hw, rfl⟩, htext⟩

theorem remainingGiven_iff {f g : Bytes} {s t : Scanned}
    (hs : Scans files bat powerSupplyCharge powerSupplyEnergy f s)
    (ht : Scans files bat powerSupplyCurrent powerSupplyPower g t) :
    RemainingGiven files bat ↔ (s ≠ .eof → t ≠ .eof → t = .number 0 ∨
      Paired f g ∧ ∃ now rate, s = .number now ∧ t = .number rate ∧ 0 ≤ now ∧ 0 ≤ rate) := by
  constructor
  · exact fun hall => hall f s g t hs ht
  · intro hone f' s' g' t' hs' ht'
    obtain ⟨rfl, rfl⟩ := hs.unique hs'
    obtain ⟨rfl, rfl⟩ := ht.unique ht'
    exact hone

end Remaining

/-- The remaining time is that of a charge and a current, or of an energy and a power,
exactly when the files that are picked give such figures. -/
theorem battery_remaining_iff {files : Files} {bat : Bytes} (h : Discharging files bat) :
    RemainingLaw files bat ↔ RemainingGiven files bat := by
  have hformat : ∀ f ∈ [powerSupplyCharge, powerSupplyEnergy, powerSupplyCurrent, powerSupplyPower],
      ∃ t, vsnprintf f [bat] = some t := by
    intro f hf
    simp only [List.mem_cons, List.not_mem_nil, or_false] at hf
    rcases hf with rfl | rfl | rfl | rfl <;> exact ⟨_, rfl⟩
  obtain ⟨t1, h1⟩ := hformat powerSupplyCharge (by simp)
  obtain ⟨t2, h2⟩ := hformat powerSupplyEnergy (by simp)
  obtain ⟨t3, h3⟩ := hformat powerSupplyCurrent (by simp)
  obtain ⟨t4, h4⟩ := hformat powerSupplyPower (by simp)
  rcases pick_cases files h1 h2 with hnow | ⟨f, s, hs⟩
  · exact iff_of_true (.inl (batteryRemaining_none h hnow))
      (fun f s g t hs => absurd hs (not_scans hnow))
  rcases pick_cases files h3 h4 with hrate | ⟨g, t, ht⟩
  · exact iff_of_true (.inl (batteryRemaining_noRate h hs hrate))
      (fun f s g t hs ht => absurd ht (not_scans hrate))
  rw [remainingGiven_iff hs ht, remainingLaw_iff hs ht, batteryRemaining_eq h hs ht]
  by_cases hnone : s = .eof ∨ t = .eof ∨ t = .number 0
  · refine iff_of_true (.inl (remainingOf_none hnone)) (fun hne hne' => .inl ?_)
    exact (hnone.resolve_left hne).resolve_left hne'
  obtain ⟨hne, hne', hrate⟩ : s ≠ .eof ∧ t ≠ .eof ∧ t ≠ .number 0 := by simpa using hnone
  cases t with
  | eof => exact absurd rfl hne'
  | mismatch => cases s <;> simp [remainingOf] at hne ⊢
  | number rate =>
    have hzero : toUintmax rate ≠ 0 := fun he => hrate (by rw [toUintmax_eq_zero he])
    cases s with
    | eof => exact absurd rfl hne
    | mismatch => simpa [remainingOf, hzero] using hrate
    | number now =>
      have hpos : 0 < (toUintmax rate).toNat :=
        Nat.pos_of_ne_zero (fun he => hzero (UInt64.toNat.inj he))
      rw [remainingOf, if_neg hzero, remainingText_eq hzero]
      constructor
      · intro hlaw _ _
        rcases hlaw with hnull | ⟨hpair, z, w, hz, hw, hz0, hw0, -⟩
        · cases hnull
        · exact .inr ⟨hpair, z, w, hz, hw, hz0, hw0⟩
      · intro hall
        rcases hall hne hne' with heq | ⟨hpair, z, w, hz, hw, hz0, hw0⟩
        · exact absurd heq hrate
        · obtain rfl := Scanned.number.inj hz
          obtain rfl := Scanned.number.inj hw
          exact .inr ⟨hpair, now, rate, rfl, rfl, hz0, hw0, _, _, rfl, minutes_lt hpos,
            hours_minutes hpos⟩

/-- A discharging battery with one readable figure for what it holds and one for the rate. -/
def batteryFiles (now rate : String) : Files := fun path =>
  if path = lit "/sys/class/power_supply/BAT0/status" then some (lit "Discharging\n")
  else if path = lit "/sys/class/power_supply/BAT0/" ++ lit now then some (lit "5000000\n")
  else if path = lit "/sys/class/power_supply/BAT0/" ++ lit rate then some (lit "1500000\n")
  else none

theorem batteryFiles_discharging (now rate : String) :
    Discharging (batteryFiles now rate) (lit "BAT0") := by
  refine ⟨lit "/sys/class/power_supply/BAT0/status", by decide +kernel, by decide +kernel, ?_⟩
  rw [pscanfState, batteryFiles, if_pos rfl]
  decide +kernel

theorem battery_remaining_charge :
    RemainingLaw (batteryFiles "charge_now" "current_now") (lit "BAT0") := by
  have hnow : Scans (batteryFiles "charge_now" "current_now") (lit "BAT0") powerSupplyCharge
      powerSupplyEnergy powerSupplyCharge (.number 5000000) :=
    ⟨lit "/sys/class/power_supply/BAT0/charge_now", lit "5000000\n", by decide +kernel⟩
  have hrate : Scans (batteryFiles "charge_now" "current_now") (lit "BAT0") powerSupplyCurrent
      powerSupplyPower powerSupplyCurrent (.number 1500000) :=
    ⟨lit "/sys/class/power_supply/BAT0/current_now", lit "1500000\n", by decide +kernel⟩
  refine (battery_remaining_iff (batteryFiles_discharging _ _)).mpr ?_
  refine (remainingGiven_iff hnow hrate).mpr (fun _ _ => .inr ⟨.inl ⟨rfl, rfl⟩, ?_⟩)
  exact ⟨5000000, 1500000, rfl, rfl, by omega, by omega⟩

/-- An energy is divided by a current. -/
theorem battery_remaining_mixed :
    Discharging (batteryFiles "energy_now" "current_now") (lit "BAT0") ∧
      ¬ RemainingLaw (batteryFiles "energy_now" "current_now") (lit "BAT0") := by
  have hnow : Scans (batteryFiles "energy_now" "current_now") (lit "BAT0") powerSupplyCharge
      powerSupplyEnergy powerSupplyEnergy (.number 5000000) :=
    ⟨lit "/sys/class/power_supply/BAT0/energy_now", lit "5000000\n", by decide +kernel⟩
  have hrate : Scans (batteryFiles "energy_now" "current_now") (lit "BAT0") powerSupplyCurrent
      powerSupplyPower powerSupplyCurrent (.number 1500000) :=
    ⟨lit "/sys/class/power_supply/BAT0/current_now", lit "1500000\n", by decide +kernel⟩
  refine ⟨batteryFiles_discharging _ _, fun hlaw => ?_⟩
  rcases (remainingLaw_iff hnow hrate).mp hlaw with hnull | ⟨hpair, -⟩
  · exact absurd hnull (by decide +kernel)
  · exact absurd hpair (by unfold Paired; decide +kernel)

end Slstatus
