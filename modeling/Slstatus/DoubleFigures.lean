import Slstatus.Battery
import Slstatus.CpuLaw
import Slstatus.HumanDouble

/-! Figures that the components compute in floating point and then truncate: the share of a
disk in use and the time a battery has left in doubles, the load of the processor in long
doubles, which have 64 bits. -/

namespace Slstatus

open Rounding

/-- The fields of `struct statvfs` that disk.c reads. -/
structure Statvfs where
  frsize : UInt64
  blocks : UInt64
  bfree : UInt64
  bavail : UInt64

def diskFree : Option Statvfs → Except Fault (Option Bytes)
  | none => .ok none
  | some fs => fmtHumanDouble (fs.frsize * fs.bavail) 1024

def diskTotal : Option Statvfs → Except Fault (Option Bytes)
  | none => .ok none
  | some fs => fmtHumanDouble (fs.frsize * fs.blocks) 1024

def diskUsed : Option Statvfs → Except Fault (Option Bytes)
  | none => .ok none
  | some fs => fmtHumanDouble (fs.frsize * (fs.blocks - fs.bfree)) 1024

/-- The argument of the cast to `int`. -/
def diskShare (bavail blocks : Nat) : ℚ :=
  toDouble (100 * toDouble (1 - toDouble (toDouble bavail / toDouble blocks)))

/-- The `int` of a floating-point number, which has to hold it. -/
def asInt (q : ℚ) : Except Fault Int :=
  if CInt.Ty.int.Holds (truncate q) then .ok (truncate q) else .error .overflow

/-- A division by zero blocks gives no number, and the cast of that is undefined. -/
def diskPerc : Option Statvfs → Except Fault (Option Bytes)
  | none => .ok none
  | some fs =>
    if fs.blocks = 0 then .error .overflow
    else (asInt (diskShare fs.bavail.toNat fs.blocks.toNat)).map (fun z => bprintf (decimalInt z))

/-- `(timeleft - (double)h) * 60`, where `h` is `timeleft` truncated. -/
def minutesDouble (timeleft : ℚ) : ℚ :=
  toDouble (toDouble (timeleft - toDouble (truncate timeleft)) * 60)

/-- `remainingText` with `timeleft` the double that it is. -/
def remainingDouble (chargeNow currentNow : UInt64) : Except Fault (Option Bytes) :=
  let timeleft := toDouble (toDouble chargeNow.toNat / toDouble currentNow.toNat)
  let h := truncate timeleft
  let m := truncate (minutesDouble timeleft)
  if CInt.Ty.ulong.Holds h ∧ CInt.Ty.ulong.Holds m then
    .ok (bprintf (decimal h.toNat ++ lit "h " ++ decimal m.toNat ++ lit "m"))
  else .error .overflow

def toLongDouble (q : ℚ) : ℚ := roundBits 64 q

/-- `x[0] + x[1] + ...`, from left to right. -/
def longSum (xs : List Int) : ℚ := xs.foldl (fun (acc : ℚ) (x : Int) => toLongDouble (acc + x)) 0

def CpuStat.busyFields (a : CpuStat) : List Int := [a.user, a.nice, a.system, a.irq, a.softirq]

/-- `cpuPerc` with every operation rounded to a long double. -/
def cpuPercLong (stat : Option (List Int)) (b : CpuStat) : Except Fault (Reading × CpuStat) :=
  match stat with
  | none => .ok (.null, b)
  | some fields =>
    let a := b.assign fields
    if fields.length ≠ 7 then .ok (.null, a)
    else if b.user = 0 then .ok (.null, a)
    else
      let sum := toLongDouble (longSum b.fields - longSum a.fields)
      if sum = 0 then .ok (.null, a)
      else
        let busy := toLongDouble (longSum b.busyFields - longSum a.busyFields)
        (asInt (toLongDouble (toLongDouble (100 * busy) / sum))).map
          (fun z : Int => (⟨some z, bprintf (decimalInt z)⟩, a))

section Disk

variable {bavail blocks : Nat}

/-- Three roundings of numbers that are at most 1, the last of them times 100. -/
theorem diskShare_near (hle : bavail ≤ blocks) (hpos : 0 < blocks) (hsmall : blocks < 2 ^ 44) :
    |diskShare bavail blocks - (100 * (blocks - bavail) : Nat) / blocks| < 1 / blocks := by
  have hb : (0 : ℚ) < blocks := by exact_mod_cast hpos
  have hb' : (blocks : ℚ) < 2 ^ 44 := by exact_mod_cast hsmall
  have hshare : diskShare bavail blocks =
      toDouble (100 * toDouble (1 - toDouble ((bavail : ℚ) / blocks))) := by
    rw [diskShare, toDouble_natCast (hsmall.trans (by decide)),
      toDouble_natCast ((hle.trans_lt hsmall).trans (by decide))]
  have hx0 : (0 : ℚ) ≤ bavail / blocks := by positivity
  have hx1 : (bavail : ℚ) / blocks ≤ 1 := (div_le_one hb).mpr (by exact_mod_cast hle)
  obtain ⟨hx, hxnear⟩ := toDouble_unit hx0 hx1
  have hxnonneg := toDouble_nonneg hx0
  obtain ⟨hy, hynear⟩ := toDouble_unit (sub_nonneg.mpr hx) (sub_le_self 1 hxnonneg)
  have hynonneg := toDouble_nonneg (sub_nonneg.mpr hx)
  have hz := toDouble_near (100 * toDouble (1 - toDouble ((bavail : ℚ) / blocks)))
  rw [abs_of_nonneg (mul_nonneg (by norm_num) hynonneg)] at hz
  have hexact : ((100 * (blocks - bavail) : Nat) : ℚ) / blocks = 100 * (1 - bavail / blocks) := by
    rw [Nat.cast_mul, Nat.cast_sub hle, mul_div_assoc, sub_div, div_self hb.ne']
    rfl
  have hbound : 300 / 2 ^ 53 < 1 / (blocks : ℚ) := by
    rw [div_lt_div_iff₀ (by positivity) hb]
    linarith
  rw [hshare, hexact]
  generalize toDouble ((bavail : ℚ) / blocks) = x at *
  generalize toDouble (1 - x) = y at *
  obtain ⟨hxlo, hxhi⟩ := abs_le.mp hxnear
  obtain ⟨hylo, hyhi⟩ := abs_le.mp hynear
  obtain ⟨hzlo, hzhi⟩ := abs_le.mp hz
  refine lt_of_le_of_lt (abs_le.mpr ⟨?_, ?_⟩) hbound <;> linarith

theorem diskShare_mono {bavail' : Nat} (h : bavail' ≤ bavail) :
    diskShare bavail blocks ≤ diskShare bavail' blocks := by
  have hcast : (bavail' : ℚ) ≤ bavail := by exact_mod_cast h
  have hquot := toDouble_mono (div_le_div_of_nonneg_right (toDouble_mono hcast)
    (toDouble_nonneg (Nat.cast_nonneg blocks)))
  have hrest := toDouble_mono (sub_le_sub_left hquot 1)
  exact toDouble_mono (mul_le_mul_of_nonneg_left hrest (by norm_num))

theorem diskShare_bounds (hle : bavail ≤ blocks) :
    0 ≤ diskShare bavail blocks ∧ diskShare bavail blocks ≤ 100 := by
  have hquot0 : 0 ≤ toDouble bavail / toDouble blocks :=
    div_nonneg (toDouble_nonneg (Nat.cast_nonneg _)) (toDouble_nonneg (Nat.cast_nonneg _))
  have hquot1 : toDouble bavail / toDouble blocks ≤ 1 :=
    div_le_one_of_le₀ (toDouble_mono (by exact_mod_cast hle)) (toDouble_nonneg (Nat.cast_nonneg _))
  have hrest := sub_nonneg.mpr (toDouble_unit hquot0 hquot1).1
  have hunit := (toDouble_unit hrest (sub_le_self 1 (toDouble_nonneg hquot0))).1
  refine ⟨toDouble_nonneg (mul_nonneg (by norm_num) (toDouble_nonneg hrest)), ?_⟩
  have hhundred : toDouble 100 = 100 := by
    simpa using toDouble_natCast (n := 100) (by decide)
  rw [diskShare, ← hhundred]
  exact toDouble_mono (by rw [hhundred]; linarith)

theorem diskPerc_eq {fs : Statvfs} (hpos : 0 < fs.blocks) (hle : fs.bavail ≤ fs.blocks) :
    ∃ n : Nat, diskPerc (some fs) = .ok (some (decimal n)) ∧ n ≤ 100 ∧
      ⌊diskShare fs.bavail.toNat fs.blocks.toNat⌋ = n := by
  obtain ⟨h0, h100⟩ := diskShare_bounds (UInt64.le_iff_toNat_le.mp hle)
  obtain ⟨n, hn⟩ := Int.eq_ofNat_of_zero_le (Int.floor_nonneg.mpr h0)
  have hn100 : n ≤ 100 := by
    have : ⌊diskShare fs.bavail.toNat fs.blocks.toNat⌋ ≤ 100 := by
      exact_mod_cast (Int.floor_mono h100).trans_eq (Int.floor_ofNat 100)
    omega
  have hne : fs.blocks ≠ 0 := by
    rintro h
    rw [h] at hpos
    exact absurd hpos (by decide)
  have hholds : CInt.Ty.int.Holds (n : Int) := by
    constructor <;> simp only [CInt.Ty.lo, CInt.Ty.hi] <;> omega
  refine ⟨n, ?_, hn100, hn⟩
  simp only [diskPerc, if_neg hne, asInt, truncate_of_nonneg h0, hn]
  rw [if_pos hholds]
  simp only [Except.map]
  rw [decimalInt_fits (by omega) (by omega)]
  rfl

end Disk

example : diskPerc (some ⟨4096, 10, 9, 9⟩) = .ok (some (lit "9")) := by decide +kernel

/-- While the size of the file system in bytes fits 64 bits, disk_total, disk_free and disk_used
scale the exact numbers of bytes. -/
theorem diskBytes_exact {fs : Statvfs} (hfits : fs.frsize.toNat * fs.blocks.toNat < 2 ^ 64)
    (hfree : fs.bfree ≤ fs.blocks) (havail : fs.bavail ≤ fs.blocks) :
    (fs.frsize * fs.blocks).toNat = fs.frsize.toNat * fs.blocks.toNat ∧
      (fs.frsize * fs.bavail).toNat = fs.frsize.toNat * fs.bavail.toNat ∧
      (fs.frsize * (fs.blocks - fs.bfree)).toNat =
        fs.frsize.toNat * (fs.blocks.toNat - fs.bfree.toNat) := by
  have hbelow {n : Nat} (h : n ≤ fs.blocks.toNat) : fs.frsize.toNat * n < 2 ^ 64 :=
    (Nat.mul_le_mul_left _ h).trans_lt hfits
  refine ⟨?_, ?_, ?_⟩
  · rw [UInt64.toNat_mul, Nat.mod_eq_of_lt hfits]
  · rw [UInt64.toNat_mul, Nat.mod_eq_of_lt (hbelow (UInt64.le_iff_toNat_le.mp havail))]
  · rw [UInt64.toNat_mul, UInt64.toNat_sub_of_le _ _ hfree,
      Nat.mod_eq_of_lt (hbelow (Nat.sub_le _ _))]

section Battery

variable {charge rate : Nat}

theorem timeleft_near (hrate : 0 < rate) (hcharge : charge < 2 ^ 53) :
    0 ≤ toDouble ((charge : ℚ) / rate) ∧ ⌊toDouble ((charge : ℚ) / rate)⌋ = (charge / rate : Nat) ∧
      |toDouble ((charge : ℚ) / rate) - charge / rate| ≤ charge / rate / 2 ^ 53 := by
  have hquot : (0 : ℚ) ≤ charge / rate := by positivity
  have hnear := toDouble_near ((charge : ℚ) / rate)
  rw [abs_of_nonneg hquot] at hnear
  exact ⟨toDouble_nonneg hquot, floor_roundBits_div hrate hcharge, hnear⟩

/-- Only the quotient and the product are rounded: the hours and the rest are doubles. -/
theorem minutesDouble_eq (hrate : 0 < rate) (hcharge : charge < 2 ^ 53) :
    minutesDouble (toDouble ((charge : ℚ) / rate)) =
      toDouble ((toDouble ((charge : ℚ) / rate) - (charge / rate : Nat)) * 60) := by
  obtain ⟨hnonneg, hfloor, -⟩ := timeleft_near hrate hcharge
  have hrep : Representable 53 (toDouble ((charge : ℚ) / rate)) :=
    representable_roundBits (by decide) (by positivity)
  have hrest := hrep.fract hnonneg
  have hhours : toDouble ((charge / rate : Nat) : ℚ) = (charge / rate : Nat) :=
    toDouble_natCast ((Nat.div_le_self _ _).trans_lt hcharge)
  rw [hfloor, Int.cast_natCast] at hrest
  rw [minutesDouble, truncate_of_nonneg hnonneg, hfloor, Int.cast_natCast, hhours, toDouble_eq hrest]

theorem minutesDouble_near (hrate : 0 < rate) (hsmall : 60 * (charge + rate) < 2 ^ 53) :
    0 ≤ minutesDouble (toDouble ((charge : ℚ) / rate)) ∧
      |minutesDouble (toDouble ((charge : ℚ) / rate)) - (60 * (charge % rate) : Nat) / rate| <
        1 / rate := by
  have hr : (0 : ℚ) < rate := by exact_mod_cast hrate
  have hcharge : charge < 2 ^ 53 := by omega
  obtain ⟨hnonneg, hfloor, hnear⟩ := timeleft_near hrate hcharge
  have hlo := Int.floor_le (toDouble ((charge : ℚ) / rate))
  have hhi := Int.lt_floor_add_one (toDouble ((charge : ℚ) / rate))
  rw [hfloor, Int.cast_natCast] at hlo hhi
  have hexact : (charge : ℚ) / rate = (charge / rate : Nat) + (charge % rate : Nat) / rate := by
    have hdiv : (charge : ℚ) = (charge / rate : Nat) * rate + (charge % rate : Nat) := by
      exact_mod_cast (Nat.div_add_mod' charge rate).symm
    rw [div_eq_iff hr.ne', add_mul, div_mul_cancel₀ _ hr.ne', ← hdiv]
  have hbound : 60 * ((charge : ℚ) / rate + 1) / 2 ^ 53 < 1 / rate := by
    have hsmall' : 60 * ((charge : ℚ) + rate) < 2 ^ 53 := by exact_mod_cast hsmall
    rw [div_lt_div_iff₀ (by positivity) hr, one_mul, mul_assoc, add_mul, one_mul,
      div_mul_cancel₀ _ hr.ne']
    exact hsmall'
  rw [minutesDouble_eq hrate hcharge, Nat.cast_mul, mul_div_assoc]
  have hrest : 0 ≤ (toDouble ((charge : ℚ) / rate) - (charge / rate : Nat)) * 60 := by linarith
  have hround := toDouble_near ((toDouble ((charge : ℚ) / rate) - (charge / rate : Nat)) * 60)
  rw [abs_of_nonneg hrest] at hround
  refine ⟨toDouble_nonneg hrest, lt_of_le_of_lt (abs_le.mpr ?_) hbound⟩
  obtain ⟨hroundlo, hroundhi⟩ := abs_le.mp hround
  obtain ⟨hnearlo, hnearhi⟩ := abs_le.mp hnear
  push_cast
  constructor <;> linarith

theorem hours_minutes_fit {hours minutes : Nat} (hhours : hours < 10 ^ 20) (hminutes : minutes < 60) :
    bprintf (decimal hours ++ lit "h " ++ decimal minutes ++ lit "m") =
      some (decimal hours ++ lit "h " ++ decimal minutes ++ lit "m") := by
  have hlen := decimal_length_le (by omega) hhours
  have hlen' : (decimal minutes).length ≤ 2 := decimal_length_le (by omega) (by omega)
  have htext : (lit "h ").length = 2 ∧ (lit "m").length = 1 := by decide
  rw [bprintf, if_neg]
  simp only [List.length_append]
  omega

end Battery

/-- battery_remaining, with its roundings, for a charge and a rate of less than 2 ^ 46 together:
the hours are exact, and the minutes are those of the exact quotient, or one less where that is a
whole number of minutes. -/
theorem remainingDouble_near (chargeNow currentNow : UInt64) (hrate : 0 < currentNow)
    (hsmall : 60 * (chargeNow.toNat + currentNow.toNat) < 2 ^ 53) :
    ∃ m, m < 60 ∧
      remainingDouble chargeNow currentNow =
        .ok (some (decimal (chargeNow.toNat / currentNow.toNat) ++ lit "h " ++
          decimal m ++ lit "m")) ∧
      (m = 60 * (chargeNow.toNat % currentNow.toNat) / currentNow.toNat ∨
        (currentNow.toNat ∣ 60 * (chargeNow.toNat % currentNow.toNat) ∧
          m + 1 = 60 * (chargeNow.toNat % currentNow.toNat) / currentNow.toNat)) := by
  have hpos : 0 < currentNow.toNat := UInt64.lt_iff_toNat_lt.mp hrate
  have hcharge : chargeNow.toNat < 2 ^ 53 := by omega
  obtain ⟨hnonneg, hfloor, -⟩ := timeleft_near hpos hcharge
  obtain ⟨hmnonneg, hmnear⟩ := minutesDouble_near hpos hsmall
  obtain ⟨m, hm⟩ := Int.eq_ofNat_of_zero_le (Int.floor_nonneg.mpr hmnonneg)
  have hcases := floor_near hpos hmnear
  rw [hm] at hcases
  have hexact : m = 60 * (chargeNow.toNat % currentNow.toNat) / currentNow.toNat ∨
      (currentNow.toNat ∣ 60 * (chargeNow.toNat % currentNow.toNat) ∧
        m + 1 = 60 * (chargeNow.toNat % currentNow.toNat) / currentNow.toNat) := by
    exact_mod_cast hcases
  have hrest : 60 * (chargeNow.toNat % currentNow.toNat) / currentNow.toNat < 60 :=
    minutes_lt hpos
  have hm60 : m < 60 := by
    rcases hexact with heq | ⟨-, heq⟩ <;> omega
  have hhours : chargeNow.toNat / currentNow.toNat < 2 ^ 64 :=
    (Nat.div_le_self _ _).trans_lt chargeNow.toNat_lt
  have hrateSmall : currentNow.toNat < 2 ^ 53 := by omega
  refine ⟨m, hm60, ?_, hexact⟩
  simp only [remainingDouble, toDouble_natCast hcharge, toDouble_natCast hrateSmall,
    truncate_of_nonneg hnonneg, truncate_of_nonneg hmnonneg, hfloor, hm]
  rw [if_pos]
  · simp only [Int.toNat_natCast]
    rw [hours_minutes_fit (hhours.trans (by decide)) hm60]
  · refine ⟨⟨Int.natCast_nonneg _, ?_⟩, ⟨Int.natCast_nonneg _, ?_⟩⟩
    · show ((chargeNow.toNat / currentNow.toNat : Nat) : Int) < 2 ^ 64
      exact_mod_cast hhours
    · show (m : Int) < 2 ^ 64
      omega

/-- A battery that lasts for 1 hour and 54 minutes. -/
theorem remainingDouble_near_tenths :
    ∃ m, m < 60 ∧ remainingDouble 1900000 1000000 =
        .ok (some (decimal 1 ++ lit "h " ++ decimal m ++ lit "m")) ∧
      (m = 54 ∨ 1000000 ∣ 54000000 ∧ m + 1 = 54) :=
  remainingDouble_near 1900000 1000000 (by decide) (by decide)

example : remainingDouble 1900000 1000000 = .ok (some (lit "1h 53m")) := by decide +kernel

section Cpu

variable {x y : Int} {xs : List Int}

/-- Whole numbers of 64 bits are long doubles. -/
theorem toLongDouble_intCast (h : x.natAbs < 2 ^ 64) : toLongDouble x = x := by
  refine roundBits_eq ?_
  rcases Int.natAbs_eq x with heq | heq
  · rw [heq]
    exact Representable.of_natCast h
  · rw [heq, Int.cast_neg]
    exact (Representable.of_natCast h).neg

theorem longSum_foldl {n : Nat} (hfields : ∀ z ∈ xs, z.natAbs < n) (hn : x.natAbs + xs.length * n < 2 ^ 64) :
    xs.foldl (fun (acc : ℚ) (z : Int) => toLongDouble (acc + z)) (x : ℚ) = ((x + xs.sum : Int) : ℚ) := by
  induction xs generalizing x with
  | nil => simp
  | cons z zs ih =>
    have hz := hfields z List.mem_cons_self
    rw [List.length_cons, Nat.succ_mul] at hn
    have hsum : (x + z).natAbs ≤ x.natAbs + z.natAbs := Int.natAbs_add_le x z
    have hstep : toLongDouble ((x : ℚ) + z) = ((x + z : Int) : ℚ) := by
      rw [← Int.cast_add]
      exact toLongDouble_intCast (by omega)
    rw [List.foldl_cons, hstep,
      ih (fun w hw => hfields w (List.mem_cons_of_mem z hw)) (by omega), List.sum_cons, add_assoc]

theorem longSum_eq {n : Nat} (hfields : ∀ z ∈ xs, z.natAbs < n) (hn : xs.length * n < 2 ^ 64) :
    longSum xs = ((xs.sum : Int) : ℚ) := by
  have h := longSum_foldl (x := 0) hfields (by simpa using hn)
  rw [Int.cast_zero, zero_add] at h
  exact h

theorem assign_fields {fields : List Int} (h : fields.length = 7) (b : CpuStat) :
    (b.assign fields).fields = fields := by
  match fields, h with
  | [_, _, _, _, _, _, _], _ => rfl

theorem mem_fields_of_busy {a : CpuStat} {z : Int} (h : z ∈ a.busyFields) : z ∈ a.fields := by
  simp only [CpuStat.busyFields, CpuStat.fields, List.mem_cons, List.not_mem_nil, or_false] at h ⊢
  tauto

theorem sum_fields (a : CpuStat) : a.fields.sum = a.total ∧ a.busyFields.sum = a.busy := by
  simp only [CpuStat.fields, CpuStat.busyFields, CpuStat.total, CpuStat.busy, List.sum_cons,
    List.sum_nil]
  omega

/-- Counters of fewer than 52 bits, whose sums are whole numbers of at most 55. -/
def CpuStat.Small (a : CpuStat) : Prop := ∀ z ∈ a.fields, z.natAbs < 2 ^ 52

theorem natAbs_sum_le {xs : List Int} {n : Nat} (h : ∀ z ∈ xs, z.natAbs < n) :
    xs.sum.natAbs ≤ xs.length * n := by
  induction xs with
  | nil => exact Nat.zero_le _
  | cons z zs ih =>
    have hz := h z List.mem_cons_self
    have hzs := ih (fun w hw => h w (List.mem_cons_of_mem z hw))
    rw [List.sum_cons, List.length_cons, Nat.add_one_mul]
    exact (Int.natAbs_add_le _ _).trans (by omega)

theorem CpuStat.Small.busy {a : CpuStat} (h : a.Small) : ∀ z ∈ a.busyFields, z.natAbs < 2 ^ 52 :=
  fun z hz => h z (mem_fields_of_busy hz)

theorem CpuStat.Small.total_lt {a : CpuStat} (h : a.Small) :
    a.total.natAbs < 2 ^ 55 ∧ a.busy.natAbs < 2 ^ 55 := by
  obtain ⟨htotal, hbusy⟩ := sum_fields a
  rw [← htotal, ← hbusy]
  exact ⟨(natAbs_sum_le h).trans_lt (by decide : 7 * 2 ^ 52 < 2 ^ 55),
    (natAbs_sum_le h.busy).trans_lt (by decide : 5 * 2 ^ 52 < 2 ^ 55)⟩

theorem longSum_fields {a : CpuStat} (h : a.Small) :
    longSum a.fields = (a.total : Int) ∧ longSum a.busyFields = (a.busy : Int) := by
  obtain ⟨htotal, hbusy⟩ := sum_fields a
  rw [longSum_eq h (by decide : 7 * 2 ^ 52 < 2 ^ 64),
    longSum_eq h.busy (by decide : 5 * 2 ^ 52 < 2 ^ 64), htotal, hbusy]
  exact ⟨rfl, rfl⟩

theorem longDifference {a b : CpuStat} (ha : a.Small) (hb : b.Small) :
    toLongDouble (longSum b.fields - longSum a.fields) = ((b.total - a.total : Int) : ℚ) ∧
      toLongDouble (longSum b.busyFields - longSum a.busyFields) = ((b.busy - a.busy : Int) : ℚ) := by
  have ha' := ha.total_lt
  have hb' := hb.total_lt
  rw [(longSum_fields ha).1, (longSum_fields ha).2, (longSum_fields hb).1, (longSum_fields hb).2,
    ← Int.cast_sub, ← Int.cast_sub]
  exact ⟨toLongDouble_intCast (by omega), toLongDouble_intCast (by omega)⟩

end Cpu

/-- On counters of fewer than 52 bits the long doubles of cpu_perc lose nothing: it shows the exact
quotient truncated, as `cpuPerc` does, unless that does not fit an `int`, where the cast has no
meaning. -/
theorem cpuPercLong_exact (stat : Option (List Int)) (b : CpuStat) (hb : b.Small)
    (hstat : ∀ fields ∈ stat, ∀ z ∈ fields, z.natAbs < 2 ^ 52) :
    cpuPercLong stat b = .ok (cpuPerc stat b) ∨
      (cpuPercLong stat b = .error .overflow ∧
        ∃ z : Int, (cpuPerc stat b).1.value = some (z : ℚ) ∧ ¬ CInt.Ty.int.Holds z) := by
  cases stat with
  | none => exact .inl rfl
  | some fields =>
    by_cases hlen : fields.length = 7
    · have ha : (b.assign fields).Small := by
        rw [CpuStat.Small, assign_fields hlen]
        exact hstat fields rfl
      obtain ⟨htotal, hbusy⟩ := longDifference ha hb
      have hbound := ha.total_lt
      have hbound' := hb.total_lt
      have hproduct : toLongDouble (100 * ((b.busy - (b.assign fields).busy : Int) : ℚ)) =
          ((100 * (b.busy - (b.assign fields).busy) : Int) : ℚ) := by
        rw [show (100 : ℚ) = ((100 : Int) : ℚ) from rfl, ← Int.cast_mul]
        exact toLongDouble_intCast (by omega)
      simp only [cpuPercLong, cpuPerc, ne_eq, hlen, not_true_eq_false, if_false, htotal, hbusy,
        hproduct, Int.cast_eq_zero]
      by_cases huser : b.user = 0
      · simp only [huser, if_true]
        exact .inl trivial
      · by_cases hsum : b.total - (b.assign fields).total = 0
        · simp only [huser, hsum, if_false, if_true]
          exact .inl trivial
        · have hquot : truncate (toLongDouble (((100 * (b.busy - (b.assign fields).busy) : Int) : ℚ) /
              ((b.total - (b.assign fields).total : Int) : ℚ))) =
              (100 * (b.busy - (b.assign fields).busy)).tdiv (b.total - (b.assign fields).total) :=
            truncate_roundBits_div hsum (by omega)
          simp only [huser, hsum, if_false, asInt, hquot]
          split_ifs with hholds
          · exact .inl rfl
          · exact .inr ⟨rfl, _, rfl, hholds⟩
    · refine .inl ?_
      simp only [cpuPercLong, cpuPerc, ne_eq, hlen, not_false_iff, if_true]


theorem cpuPercLong_exact_loaded :
    let stat := some [20, 0, 0, 80, 0, 0, 0]
    let b : CpuStat := { user := 10, idle := 40 }
    cpuPercLong stat b = .ok (cpuPerc stat b) ∨
      (cpuPercLong stat b = .error .overflow ∧
        ∃ z : Int, (cpuPerc stat b).1.value = some (z : ℚ) ∧ ¬ CInt.Ty.int.Holds z) :=
  cpuPercLong_exact _ _ (by simp [CpuStat.Small, CpuStat.fields]) (by simp)

end Slstatus
