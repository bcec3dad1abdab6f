import Slstatus.Counters
import Slstatus.GetInfo
import Slstatus.HumanScale
import Slstatus.Lib.CInt

/-! ram.c and swap.c on Linux: the figures of /proc/meminfo that `fmt_human` and
`bprintf` get to print. -/

namespace Slstatus

def arithFault : CInt.Undefined → Fault
  | .overflow => .overflow
  | .divByZero => .divByZero

/-- `fmt_human(v, 1024)`, which takes its argument as a `uintmax_t`. -/
def Reading.humanOf : Except CInt.Undefined CInt.Val → Except Fault Reading
  | .error u => .error (arithFault u)
  | .ok v => Reading.human (UInt64.ofInt v.z)

/-- `bprintf("%d", v)`, which reads its argument as an `int`. -/
def Reading.decimalOf : Except CInt.Undefined CInt.Val → Except Fault Reading
  | .error u => .error (arithFault u)
  | .ok v =>
    let n := CInt.Ty.int.wrap v.z
    .ok ⟨some n, bprintf (decimalInt n)⟩

def longVal (n : Int64) : CInt.Val := ⟨.long, n.toInt, n.le_toInt, n.toInt_lt⟩

def longVar (vars : Bytes → Option Int64) (name : Bytes) : Except Fault CInt.Val :=
  match vars name with
  | none => .error .unassigned
  | some n => .ok (longVal n)

def swapFree (meminfo : Option File) : Except Fault Reading := do
  let (ret, vars) ← getSwapInfo false true false meminfo
  if ret ≠ 0 then return .null
  let free ← longVar vars (lit "SwapFree")
  Reading.humanOf (CInt.mul free (CInt.int 1024))

def swapPerc (meminfo : Option File) : Except Fault Reading := do
  let (ret, vars) ← getSwapInfo true true true meminfo
  if ret ≠ 0 then return .null
  let total ← longVar vars (lit "SwapTotal")
  if total.z = 0 then return .null
  let free ← longVar vars (lit "SwapFree")
  let cached ← longVar vars (lit "SwapCached")
  Reading.decimalOf do
    let rest ← CInt.sub total free
    let used ← CInt.sub rest cached
    let scaled ← CInt.mul (CInt.int 100) used
    CInt.div scaled total

def swapTotal (meminfo : Option File) : Except Fault Reading := do
  let (ret, vars) ← getSwapInfo true false false meminfo
  if ret ≠ 0 then return .null
  let total ← longVar vars (lit "SwapTotal")
  Reading.humanOf (CInt.mul total (CInt.int 1024))

def swapUsed (meminfo : Option File) : Except Fault Reading := do
  let (ret, vars) ← getSwapInfo true true true meminfo
  if ret ≠ 0 then return .null
  let total ← longVar vars (lit "SwapTotal")
  let free ← longVar vars (lit "SwapFree")
  let cached ← longVar vars (lit "SwapCached")
  Reading.humanOf do
    let rest ← CInt.sub total free
    let used ← CInt.sub rest cached
    CInt.mul used (CInt.int 1024)

/-- The variables of `ram_perc` and `ram_used` after their six calls of `lscanf`. -/
structure RamVars where
  total : UInt64
  free : UInt64
  buffers : UInt64
  cached : UInt64
  shmem : UInt64
  sreclaimable : UInt64
  deriving DecidableEq

def ramVars (fp : File) : Option RamVars := do
  let total ← lscanf fp (lit "MemTotal:")
  let free ← lscanf fp (lit "MemFree:")
  let buffers ← lscanf fp (lit "Buffers:")
  let cached ← lscanf fp (lit "Cached:")
  let shmem ← lscanf fp (lit "Shmem:")
  let sreclaimable ← lscanf fp (lit "SReclaimable:")
  return ⟨total, free, buffers, cached, shmem, sreclaimable⟩

def RamVars.used (v : RamVars) : UInt64 :=
  v.total - v.free - v.buffers - v.cached - v.sreclaimable + v.shmem

def ramPerc (meminfo : Option File) : Except Fault Reading :=
  match meminfo.bind ramVars with
  | none => .ok .null
  | some v =>
    if v.total = 0 then .ok .null
    else
      let percent := CInt.Ty.int.wrap (100 * v.used / v.total).toNat
      .ok ⟨some percent, bprintf (decimalInt percent)⟩

def ramUsed (meminfo : Option File) : Except Fault Reading :=
  match meminfo.bind ramVars with
  | none => .ok .null
  | some v => Reading.human (v.used * 1024)

/-- What `io_in` and `io_out` see of a call of `get_io` for their variable. -/
def ioReport (name : Bytes) (result : Except Fault (Int × (Bytes → Option UInt64))) :
    Except Fault GetIo :=
  result.map (fun r => ⟨decide (r.1 ≠ 0), r.2 name⟩)

section Assigned

variable {sTotal sFree sCached : Bool} {meminfo : Option File} {ret : Int}
  {vars : Bytes → Option Int64}

theorem Reading.human_ok (num : UInt64) :
    ∃ text, Reading.human num = .ok ⟨some num.toNat, some text⟩ := by
  obtain ⟨i, p, -, -, -, -, hprint⟩ := fmtHuman_prints (.inr rfl : 1024 = 1000 ∨ 1024 = 1024) num
  have hhuman : fmtHuman num 1024 = .ok (some _) := hprint
  exact ⟨_, by rw [Reading.human, hhuman]⟩

theorem humanOf_gives {v : Except CInt.Undefined CInt.Val} {t : CInt.Ty} {z : Int}
    (h : CInt.Gives v t z) :
    ∃ text, Reading.humanOf v = .ok ⟨some (z % 2 ^ 64).toNat, some text⟩ := by
  obtain ⟨hz, rfl⟩ := h
  obtain ⟨text, htext⟩ := Reading.human_ok (UInt64.ofInt z)
  have hmod : (UInt64.ofInt z).toNat = (z % 2 ^ 64).toNat := by
    rw [UInt64.ofInt, UInt64.toNat_ofNat']
    omega
  exact ⟨text, by rw [Reading.humanOf, htext, hmod]⟩

theorem percent_le {used total : Nat} (hle : used ≤ total) (hpos : 0 < total) : 100 * used / total ≤ 100 := by
  rw [Nat.div_le_iff_le_mul_add_pred hpos]
  omega

theorem decimal_fits {n : Nat} (h : n ≤ 100) : bprintf (decimalInt n) = some (decimal n) := by
  have hlen : (decimal n).length ≤ 3 := decimal_length_le (by omega) (by omega)
  have hsign : ¬ (n : Int) < 0 := by omega
  rw [decimalInt, if_neg hsign, Int.natAbs_natCast, bprintf, if_neg (by omega)]

theorem decimalOf_gives {v : Except CInt.Undefined CInt.Val} {t : CInt.Ty} {n : Nat}
    (h : CInt.Gives v t n) (hn : n ≤ 100) :
    Reading.decimalOf v = .ok ⟨some n, some (decimal n)⟩ := by
  obtain ⟨hz, rfl⟩ := h
  have hint : CInt.Ty.int.Holds n :=
    ⟨by simp only [CInt.Ty.lo]; omega, by simp only [CInt.Ty.hi]; omega⟩
  simp only [Reading.decimalOf, CInt.Ty.wrap_of_holds hint, decimal_fits hn, Int.cast_natCast]

theorem humanOf_ne_unassigned (v : Except CInt.Undefined CInt.Val) :
    Reading.humanOf v ≠ .error .unassigned := by
  cases v with
  | error u => cases u <;> simp [Reading.humanOf, arithFault]
  | ok v =>
    obtain ⟨text, htext⟩ := Reading.human_ok (UInt64.ofInt v.z)
    simp [Reading.humanOf, htext]

theorem decimalOf_ne_unassigned (v : Except CInt.Undefined CInt.Val) :
    Reading.decimalOf v ≠ .error .unassigned := by
  cases v with
  | error u => cases u <;> simp [Reading.decimalOf, arithFault]
  | ok v => simp [Reading.decimalOf]

theorem longVar_ok {name : Bytes} {n : Int64} (h : vars name = some n) :
    longVar vars name = .ok (longVal n) := by
  simp only [longVar, h]

theorem swapInfo_assigned
    (h : InfoLaw (swapEnts sTotal sFree sCached) 58 Int64.toInt meminfo
      (getSwapInfo sTotal sFree sCached meminfo)) :
    ∃ ret vars, getSwapInfo sTotal sFree sCached meminfo = .ok (ret, vars) ∧
      (ret = 0 → ∀ e ∈ requested (swapEnts sTotal sFree sCached),
        ∃ n, longVar vars e.name = .ok (longVal n)) := by
  obtain ⟨ret, vars, hrun, hzero⟩ := h
  refine ⟨ret, vars, hrun, fun hret e he => ?_⟩
  obtain ⟨f, -, hfields⟩ := hzero hret
  obtain ⟨line, -, z, -, n, hn, -⟩ := hfields e he
  exact ⟨n, longVar_ok hn⟩

theorem swapFree_assigned (h : InfoLaw (swapEnts false true false) 58 Int64.toInt meminfo
    (getSwapInfo false true false meminfo)) : swapFree meminfo ≠ .error .unassigned := by
  obtain ⟨ret, vars, hrun, hvars⟩ := swapInfo_assigned h
  simp only [swapFree, hrun, bind, Except.bind, pure, Except.pure]
  split_ifs with hret
  · simp
  · obtain ⟨free, hfree⟩ := hvars (not_not.mp hret) ⟨lit "SwapFree", true⟩ (by decide)
    rw [hfree]
    exact humanOf_ne_unassigned _

theorem swapTotal_assigned (h : InfoLaw (swapEnts true false false) 58 Int64.toInt meminfo
    (getSwapInfo true false false meminfo)) : swapTotal meminfo ≠ .error .unassigned := by
  obtain ⟨ret, vars, hrun, hvars⟩ := swapInfo_assigned h
  simp only [swapTotal, hrun, bind, Except.bind, pure, Except.pure]
  split_ifs with hret
  · simp
  · obtain ⟨total, htotal⟩ := hvars (not_not.mp hret) ⟨lit "SwapTotal", true⟩ (by decide)
    rw [htotal]
    exact humanOf_ne_unassigned _

theorem swapFigures_assigned (h : InfoLaw (swapEnts true true true) 58 Int64.toInt meminfo
    (getSwapInfo true true true meminfo)) :
    swapPerc meminfo ≠ .error .unassigned ∧ swapUsed meminfo ≠ .error .unassigned := by
  obtain ⟨ret, vars, hrun, hvars⟩ := swapInfo_assigned h
  simp only [swapPerc, swapUsed, hrun, bind, Except.bind, pure, Except.pure]
  split_ifs with hret
  · simp
  · obtain ⟨total, htotal⟩ := hvars (not_not.mp hret) ⟨lit "SwapTotal", true⟩ (by decide)
    obtain ⟨free, hfree⟩ := hvars (not_not.mp hret) ⟨lit "SwapFree", true⟩ (by decide)
    obtain ⟨cached, hcached⟩ := hvars (not_not.mp hret) ⟨lit "SwapCached", true⟩ (by decide)
    simp only [htotal, hfree, hcached]
    refine ⟨?_, humanOf_ne_unassigned _⟩
    split_ifs with hzero
    · simp
    · exact decimalOf_ne_unassigned _

end Assigned

theorem swapEnts_nodup (sTotal sFree sCached : Bool) :
    ((requested (swapEnts sTotal sFree sCached)).map Ent.name).Nodup := by
  cases sTotal <;> cases sFree <;> cases sCached <;> decide +kernel

theorem ioEnts_nodup (sIn sOut : Bool) : ((requested (ioEnts sIn sOut)).map Ent.name).Nodup := by
  cases sIn <;> cases sOut <;> decide +kernel

/-- For every set of requested fields and every file, a call keeps its promise exactly when
the first lines that begin with the requested names give each field its number; and
then no component reads a variable that was not assigned. -/
theorem fields_reported_iff (sTotal sFree sCached sIn sOut : Bool) (meminfo vmstat : Option File) :
    (InfoLaw (swapEnts sTotal sFree sCached) 58 Int64.toInt meminfo
        (getSwapInfo sTotal sFree sCached meminfo) ↔
      InfoGiven toLong (swapEnts sTotal sFree sCached) 58 Int64.toInt meminfo) ∧
    (InfoLaw (ioEnts sIn sOut) 32 (fun n => (n.toNat : Int)) vmstat (getIo sIn sOut vmstat) ↔
      InfoGiven toUintmax (ioEnts sIn sOut) 32 (fun n => (n.toNat : Int)) vmstat) ∧
    (InfoGiven toLong (swapEnts false true false) 58 Int64.toInt meminfo →
      swapFree meminfo ≠ .error .unassigned) ∧
    (InfoGiven toLong (swapEnts true false false) 58 Int64.toInt meminfo →
      swapTotal meminfo ≠ .error .unassigned) ∧
    (InfoGiven toLong (swapEnts true true true) 58 Int64.toInt meminfo →
      swapPerc meminfo ≠ .error .unassigned ∧ swapUsed meminfo ≠ .error .unassigned) ∧
    (InfoGiven toUintmax (ioEnts sIn sOut) 32 (fun n => (n.toNat : Int)) vmstat →
      ∀ e ∈ requested (ioEnts sIn sOut),
        ∃ io, ioReport e.name (getIo sIn sOut vmstat) = .ok io ∧
          (io.failed = false → io.stored ≠ none)) := by
  have hswap := fun sTotal sFree sCached => infoLaw_iff toLong 58
    Int64.toInt (swapEnts_nodup sTotal sFree sCached) meminfo
  have hio := infoLaw_iff toUintmax 32 (fun n => (n.toNat : Int)) (ioEnts_nodup sIn sOut) vmstat
  refine ⟨hswap sTotal sFree sCached, hio, ?_, ?_, ?_, ?_⟩
  · intro hgiven
    exact swapFree_assigned ((hswap false true false).mpr hgiven)
  · intro hgiven
    exact swapTotal_assigned ((hswap true false false).mpr hgiven)
  · intro hgiven
    exact swapFigures_assigned ((hswap true true true).mpr hgiven)
  · intro hgiven e he
    obtain ⟨ret, vars, hrun, hzero⟩ := hio.mpr hgiven
    refine ⟨⟨decide (ret ≠ 0), vars e.name⟩, by rw [getIo, hrun]; rfl, fun hret => ?_⟩
    obtain ⟨f, -, hfields⟩ := hzero (by simpa using hret)
    obtain ⟨line, -, z, -, n, hn, -⟩ := hfields e he
    simp [hn]

theorem fields_unreported :
    let repeated : File := { content := lit "SwapTotal:  8 kB\nSwapTotal:  8 kB\n" }
    ¬ InfoLaw (swapEnts true true false) 58 Int64.toInt (some repeated)
        (getSwapInfo true true false (some repeated)) ∧
      swapPerc (some { content := lit "MemTotal:  16 kB\n" }) = .error .unassigned := by
  intro repeated
  refine ⟨fun h => ?_, by decide +kernel⟩
  obtain ⟨ret, vars, hrun, hzero⟩ := h
  have hread : (getSwapInfo true true false (some repeated)).map (fun r => (r.1, r.2 (lit "SwapFree"))) =
      .ok (0, none) := by decide +kernel
  rw [hrun] at hread
  obtain ⟨hret, hfree⟩ := Prod.mk.inj (Except.ok.inj hread)
  obtain ⟨f, -, hfields⟩ := hzero hret
  obtain ⟨line, -, z, -, n, hn, -⟩ := hfields ⟨lit "SwapFree", true⟩ (by decide +kernel)
  cases hfree.symm.trans hn

end Slstatus
