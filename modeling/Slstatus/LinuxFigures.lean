import Slstatus.LinuxMemory

/-! When the memory figures of Linux are figures of the memory: the used amount that
ram.c and swap.c compute lies between 0 and the total. -/

namespace Slstatus

/-- One snapshot of /proc/meminfo, in kB. -/
structure MemInfo where
  memTotal : UInt64
  memFree : UInt64
  buffers : UInt64
  cached : UInt64
  shmem : UInt64
  sReclaimable : UInt64
  swapTotal : Int64
  swapFree : Int64
  swapCached : Int64

namespace MemInfo

def ramVars (s : MemInfo) : RamVars :=
  ⟨s.memTotal, s.memFree, s.buffers, s.cached, s.shmem, s.sReclaimable⟩

/-- The file that ram.c and swap.c read holds the snapshot. -/
structure ReadFrom (s : MemInfo) (meminfo : Option File) : Prop where
  ram : meminfo.bind Slstatus.ramVars = some s.ramVars
  swap : (getSwapInfo true true true meminfo).map (fun r =>
      (r.1, r.2 (lit "SwapTotal"), r.2 (lit "SwapFree"), r.2 (lit "SwapCached"))) =
    .ok (0, some s.swapTotal, some s.swapFree, some s.swapCached)

/-- The totals are positive and below `2 ^ 50`, and no field is above its total. -/
structure Plausible (s : MemInfo) : Prop where
  memTotal : 0 < s.memTotal.toNat ∧ s.memTotal.toNat < 2 ^ 50
  memFree : s.memFree.toNat ≤ s.memTotal.toNat
  buffers : s.buffers.toNat ≤ s.memTotal.toNat
  cached : s.cached.toNat ≤ s.memTotal.toNat
  shmem : s.shmem.toNat ≤ s.memTotal.toNat
  sReclaimable : s.sReclaimable.toNat ≤ s.memTotal.toNat
  swapTotal : 0 < s.swapTotal.toInt ∧ s.swapTotal.toInt < 2 ^ 50
  swapFree : 0 ≤ s.swapFree.toInt ∧ s.swapFree.toInt ≤ s.swapTotal.toInt
  swapCached : 0 ≤ s.swapCached.toInt ∧ s.swapCached.toInt ≤ s.swapTotal.toInt

/-- `ram_perc` prints the percentage, rounded down, of the amount that `ram_used` hands
to `fmt_human`, and this is at most the total. -/
def RamLaw (s : MemInfo) (meminfo : Option File) : Prop :=
  ∃ percent used : Nat, percent ≤ 100 ∧ used ≤ s.memTotal.toNat ∧
    percent = 100 * used / s.memTotal.toNat ∧
    ramPerc meminfo = .ok ⟨some percent, some (decimal percent)⟩ ∧
    ∃ text, ramUsed meminfo = .ok ⟨some (1024 * used : Nat), some text⟩

def SwapLaw (s : MemInfo) (meminfo : Option File) : Prop :=
  ∃ percent bytes : Nat, percent ≤ 100 ∧ (bytes : Int) ≤ 1024 * s.swapTotal.toInt ∧
    swapPerc meminfo = .ok ⟨some percent, some (decimal percent)⟩ ∧
    ∃ text, swapUsed meminfo = .ok ⟨some bytes, some text⟩

def available (s : MemInfo) : Nat :=
  s.memFree.toNat + s.buffers.toNat + s.cached.toNat + s.sReclaimable.toNat

end MemInfo

section Ram

variable {s : MemInfo} {meminfo : Option File}

theorem used_toNat (h : s.Plausible) : s.ramVars.used.toNat =
    if s.available ≤ s.memTotal.toNat + s.shmem.toNat then
      s.memTotal.toNat + s.shmem.toNat - s.available
    else 2 ^ 64 + s.memTotal.toNat + s.shmem.toNat - s.available := by
  have := h.memTotal
  have := h.memFree
  have := h.buffers
  have := h.cached
  have := h.shmem
  have := h.sReclaimable
  by_cases hsum : s.available ≤ s.memTotal.toNat + s.shmem.toNat
  · rw [if_pos hsum]
    simp only [RamVars.used, MemInfo.ramVars, UInt64.toNat_add, UInt64.toNat_sub,
      MemInfo.available] at hsum ⊢
    omega
  · rw [if_neg hsum]
    simp only [RamVars.used, MemInfo.ramVars, UInt64.toNat_add, UInt64.toNat_sub,
      MemInfo.available] at hsum ⊢
    omega

theorem ramUsed_eq (hread : s.ReadFrom meminfo) :
    ∃ text, ramUsed meminfo =
      .ok ⟨some (s.ramVars.used * 1024).toNat, some text⟩ := by
  obtain ⟨text, htext⟩ := Reading.human_ok (s.ramVars.used * 1024)
  refine ⟨text, ?_⟩
  rw [ramUsed, hread.ram]
  exact htext

theorem bytes_eq (h : s.Plausible) (hsum : s.available ≤ s.memTotal.toNat + s.shmem.toNat) :
    (s.ramVars.used * 1024).toNat =
      1024 * (s.memTotal.toNat + s.shmem.toNat - s.available) := by
  have := h.memTotal
  have := h.shmem
  rw [UInt64.toNat_mul, used_toNat h, if_pos hsum]
  simp only [UInt64.reduceToNat]
  omega

theorem bytes_wrapped (h : s.Plausible) (hsum : ¬ s.available ≤ s.memTotal.toNat + s.shmem.toNat) :
    1024 * s.memTotal.toNat < (s.ramVars.used * 1024).toNat := by
  have := h.memTotal
  have := h.memFree
  have := h.buffers
  have := h.cached
  have := h.sReclaimable
  rw [UInt64.toNat_mul, used_toNat h, if_neg hsum]
  simp only [UInt64.reduceToNat, MemInfo.available] at hsum ⊢
  omega

theorem ramPerc_eq (h : s.Plausible) (hread : s.ReadFrom meminfo) (hlo : s.shmem.toNat ≤ s.available)
    (hhi : s.available ≤ s.memTotal.toNat + s.shmem.toNat) :
    let used := s.memTotal.toNat + s.shmem.toNat - s.available
    ramPerc meminfo = .ok ⟨some (100 * used / s.memTotal.toNat : Nat),
      some (decimal (100 * used / s.memTotal.toNat))⟩ := by
  intro used
  have htotal := h.memTotal
  have hle : used ≤ s.memTotal.toNat := by omega
  have hused : s.ramVars.used.toNat = used := by rw [used_toNat h, if_pos hhi]
  have hquot : (100 * s.ramVars.used / s.ramVars.total).toNat = 100 * used / s.memTotal.toNat := by
    rw [UInt64.toNat_div, UInt64.toNat_mul, hused]
    have hmod : UInt64.toNat 100 * used % 2 ^ 64 = 100 * used := by
      simp only [UInt64.reduceToNat]
      omega
    rw [hmod]
    rfl
  have hpercent : 100 * used / s.memTotal.toNat ≤ 100 := percent_le hle htotal.1
  have hint : CInt.Ty.int.wrap (100 * used / s.memTotal.toNat : Nat) =
      (100 * used / s.memTotal.toNat : Nat) :=
    CInt.Ty.wrap_of_holds ⟨by simp only [CInt.Ty.lo]; omega, by simp only [CInt.Ty.hi]; omega⟩
  have hne : s.ramVars.total ≠ 0 := by
    intro hzero
    have : s.memTotal.toNat = 0 := by rw [show s.memTotal = 0 from hzero]; rfl
    omega
  rw [ramPerc, hread.ram]
  simp only [if_neg hne, hquot, hint, decimal_fits hpercent, Int.cast_natCast]

theorem ramLaw_iff (h : s.Plausible) (hread : s.ReadFrom meminfo) :
    s.RamLaw meminfo ↔ s.shmem.toNat ≤ s.available ∧ s.available ≤ s.memTotal.toNat + s.shmem.toNat := by
  obtain ⟨text, htext⟩ := ramUsed_eq hread
  constructor
  · intro hex
    obtain ⟨percent, used, -, hle, -, -, text', htext'⟩ := hex
    have hbytes : ((s.ramVars.used * 1024).toNat : ℚ) = (1024 * used : Nat) := by
      have := Except.ok.inj (htext.symm.trans htext')
      exact Option.some.inj (Reading.mk.inj this).1
    have hnat : (s.ramVars.used * 1024).toNat = 1024 * used := by exact_mod_cast hbytes
    by_cases hsum : s.available ≤ s.memTotal.toNat + s.shmem.toNat
    · rw [bytes_eq h hsum] at hnat
      omega
    · have := bytes_wrapped h hsum
      omega
  · intro hrange
    obtain ⟨hlo, hhi⟩ := hrange
    have htotal := h.memTotal
    have hle : s.memTotal.toNat + s.shmem.toNat - s.available ≤ s.memTotal.toNat := by omega
    refine ⟨_, s.memTotal.toNat + s.shmem.toNat - s.available, percent_le hle htotal.1, hle, rfl,
      ramPerc_eq h hread hlo hhi, text, ?_⟩
    rw [htext, bytes_eq h hhi]

end Ram

section Swap

variable {s : MemInfo} {meminfo : Option File}

theorem swapVars_of_readFrom (h : s.ReadFrom meminfo) :
    ∃ vars, getSwapInfo true true true meminfo = .ok (0, vars) ∧
      longVar vars (lit "SwapTotal") = .ok (longVal s.swapTotal) ∧
      longVar vars (lit "SwapFree") = .ok (longVal s.swapFree) ∧
      longVar vars (lit "SwapCached") = .ok (longVal s.swapCached) := by
  have hswap := h.swap
  cases hrun : getSwapInfo true true true meminfo with
  | error f => simp [hrun, Except.map] at hswap
  | ok r =>
    obtain ⟨ret, vars⟩ := r
    simp only [hrun, Except.map, Except.ok.injEq, Prod.mk.injEq] at hswap
    obtain ⟨rfl, htotal, hfree, hcached⟩ := hswap
    exact ⟨vars, rfl, longVar_ok htotal, longVar_ok hfree, longVar_ok hcached⟩

/-- The amount that swap.c takes for the used one; it may be negative. -/
def MemInfo.swapRest (s : MemInfo) : Int :=
  s.swapTotal.toInt - s.swapFree.toInt - s.swapCached.toInt

theorem swapRest_holds (h : s.Plausible) {k : Int} (h0 : 0 ≤ k) (hk : k ≤ 1024) :
    CInt.Ty.long.Holds (k * s.swapRest) := by
  have htotal := h.swapTotal
  have hfree := h.swapFree
  have hcached := h.swapCached
  have hrange : -2 ^ 50 ≤ s.swapRest ∧ s.swapRest ≤ 2 ^ 50 := by
    simp only [MemInfo.swapRest]
    omega
  have hlo : k * -2 ^ 50 ≤ k * s.swapRest := Int.mul_le_mul_of_nonneg_left hrange.1 h0
  have hhi : k * s.swapRest ≤ k * 2 ^ 50 := Int.mul_le_mul_of_nonneg_left hrange.2 h0
  simp only [CInt.Ty.Holds, CInt.Ty.lo, CInt.Ty.hi]
  omega

/-- The expression is exact as far as the difference, and so is what follows from it. -/
theorem swapRest_gives (h : s.Plausible) {f : CInt.Val → Except CInt.Undefined CInt.Val}
    {t : CInt.Ty} {z : Int} (hf : ∀ hrest, CInt.Gives (f ⟨.long, s.swapRest, hrest⟩) t z) :
    CInt.Gives (do
      let rest ← CInt.sub (longVal s.swapTotal) (longVal s.swapFree)
      let used ← CInt.sub rest (longVal s.swapCached)
      f used) t z := by
  have htotal := h.swapTotal
  have hfree := h.swapFree
  have hrest : CInt.Ty.long.Holds (s.swapTotal.toInt - s.swapFree.toInt) := by
    simp only [CInt.Ty.Holds, CInt.Ty.lo, CInt.Ty.hi]
    omega
  have hused : CInt.Ty.long.Holds s.swapRest := by
    simpa using swapRest_holds h (k := 1) (by omega) (by omega)
  have hsub : CInt.Gives (CInt.sub (longVal s.swapTotal) (longVal s.swapFree)) .long
      (s.swapTotal.toInt - s.swapFree.toInt) :=
    CInt.gives_arith (longVal s.swapTotal).holds (longVal s.swapFree).holds hrest
  refine hsub.bind (fun hheld => ?_)
  have hsub' : CInt.Gives (CInt.sub ⟨.long, _, hheld⟩ (longVal s.swapCached)) .long s.swapRest :=
    CInt.gives_arith hheld (longVal s.swapCached).holds hused
  exact hsub'.bind hf

theorem swapUsed_eq (h : s.Plausible) (hread : s.ReadFrom meminfo) :
    ∃ text, swapUsed meminfo =
      .ok ⟨some (s.swapRest * 1024 % 2 ^ 64).toNat, some text⟩ := by
  obtain ⟨vars, hrun, htotal, hfree, hcached⟩ := swapVars_of_readFrom hread
  have hbytes : CInt.Ty.long.Holds (s.swapRest * 1024) := by
    rw [Int.mul_comm]
    exact swapRest_holds h (by omega) (by omega)
  have hmul : ∀ hrest, CInt.Gives (CInt.mul ⟨.long, s.swapRest, hrest⟩ (CInt.int 1024)) .long
      (s.swapRest * 1024) := fun hrest => CInt.gives_arith hrest (by decide +revert) hbytes
  have hexpr := swapRest_gives h (f := fun used => CInt.mul used (CInt.int 1024)) hmul
  obtain ⟨text, htext⟩ := humanOf_gives hexpr
  refine ⟨text, ?_⟩
  simp only [swapUsed, hrun, htotal, hfree, hcached, bind, Except.bind, pure, Except.pure, ne_eq,
    not_true, if_false]
  exact htext

theorem swapPerc_eq (h : s.Plausible) (hread : s.ReadFrom meminfo) (hrest : 0 ≤ s.swapRest) :
    ∃ percent : Nat, percent ≤ 100 ∧
      swapPerc meminfo = .ok ⟨some percent, some (decimal percent)⟩ := by
  obtain ⟨vars, hrun, htotal, hfree, hcached⟩ := swapVars_of_readFrom hread
  have hpos := h.swapTotal
  have hfree0 := h.swapFree
  have hcached0 := h.swapCached
  have hscaled : CInt.Ty.long.Holds (100 * s.swapRest) := swapRest_holds h (by omega) (by omega)
  have hdiv : ∀ hheld, CInt.Gives (do
      let scaled ← CInt.mul (CInt.int 100) ⟨.long, s.swapRest, hheld⟩
      CInt.div scaled (longVal s.swapTotal)) .long (100 * s.swapRest / s.swapTotal.toInt) := by
    intro hheld
    have hmul : CInt.Gives (CInt.mul (CInt.int 100) ⟨.long, s.swapRest, hheld⟩) .long
        (100 * s.swapRest) := CInt.gives_arith (by decide) hheld hscaled
    exact hmul.bind (fun hprod =>
      CInt.gives_div hprod (longVal s.swapTotal).holds (by omega) hpos.1)
  have hexpr := swapRest_gives h (f := fun used => do
    let scaled ← CInt.mul (CInt.int 100) used
    CInt.div scaled (longVal s.swapTotal)) hdiv
  have hnonneg : 0 ≤ 100 * s.swapRest / s.swapTotal.toInt := Int.ediv_nonneg (by omega) (by omega)
  have hle : 100 * s.swapRest / s.swapTotal.toInt ≤ 100 := by
    refine Int.le_of_lt_add_one (Int.ediv_lt_of_lt_mul hpos.1 ?_)
    simp only [MemInfo.swapRest]
    omega
  obtain ⟨percent, hpercent⟩ := Int.eq_ofNat_of_zero_le hnonneg
  have hzero : ¬ (longVal s.swapTotal).z = 0 := by
    intro he
    have : s.swapTotal.toInt = 0 := he
    omega
  refine ⟨percent, by omega, ?_⟩
  simp only [swapPerc, hrun, htotal, hfree, hcached, bind, Except.bind, pure, Except.pure, ne_eq,
    not_true, if_false, if_neg hzero]
  refine decimalOf_gives (t := .long) ?_ (by omega)
  rw [← hpercent]
  exact hexpr

theorem swapLaw_iff (h : s.Plausible) (hread : s.ReadFrom meminfo) :
    s.SwapLaw meminfo ↔ s.swapFree.toInt + s.swapCached.toInt ≤ s.swapTotal.toInt := by
  have htotal := h.swapTotal
  have hfree := h.swapFree
  have hcached := h.swapCached
  obtain ⟨text, hused⟩ := swapUsed_eq h hread
  constructor
  · intro hex
    obtain ⟨percent, bytes, -, hle, -, text', htext'⟩ := hex
    have hval := Option.some.inj (Reading.mk.inj (Except.ok.inj (hused.symm.trans htext'))).1
    have hnat : (s.swapRest * 1024 % 2 ^ 64).toNat = bytes := by exact_mod_cast hval
    simp only [MemInfo.swapRest] at hnat
    omega
  · intro hsum
    have hrest : 0 ≤ s.swapRest := by
      simp only [MemInfo.swapRest]
      omega
    obtain ⟨percent, hpercent, hperc⟩ := swapPerc_eq h hread hrest
    refine ⟨percent, _, hpercent, ?_, hperc, text, hused⟩
    simp only [MemInfo.swapRest]
    omega

end Swap

/-- The memory figures never wrap exactly when the amounts that are taken from the total
do not add up to more than there is, and no more of them is shared than they are. -/
theorem memory_figures_iff {s : MemInfo} {meminfo : Option File} (h : s.Plausible)
    (hread : s.ReadFrom meminfo) :
    (s.RamLaw meminfo ↔
      s.shmem.toNat ≤ s.available ∧ s.available ≤ s.memTotal.toNat + s.shmem.toNat) ∧
    (s.SwapLaw meminfo ↔ s.swapFree.toInt + s.swapCached.toInt ≤ s.swapTotal.toInt) :=
  ⟨ramLaw_iff h hread, swapLaw_iff h hread⟩

/-- A file of which only the lines for MemFree and SwapCached are left open. -/
def meminfoText (free cached : String) : File where
  content :=
    lit "MemTotal: 16 kB\nMemFree: " ++ lit free ++ lit " kB\nBuffers: 1 kB\nCached: 8 kB\n" ++
    lit "SwapCached: " ++ lit cached ++ lit " kB\nSwapTotal: 8 kB\nSwapFree: 6 kB\n" ++
    lit "Shmem: 2 kB\nSReclaimable: 1 kB\n"

def meminfoValues (free : UInt64) (cached : Int64) : MemInfo where
  memTotal := 16
  memFree := free
  buffers := 1
  cached := 8
  shmem := 2
  sReclaimable := 1
  swapTotal := 8
  swapFree := 6
  swapCached := cached

theorem meminfoValues_domain {free : UInt64} {cached : Int64} (hfree : free.toNat ≤ 16)
    (hcached : 0 ≤ cached.toInt ∧ cached.toInt ≤ 8) : (meminfoValues free cached).Plausible where
  memTotal := by simp [meminfoValues]
  memFree := hfree
  buffers := by simp [meminfoValues]
  cached := by simp [meminfoValues]
  shmem := by simp [meminfoValues]
  sReclaimable := by simp [meminfoValues]
  swapTotal := by simp [meminfoValues]
  swapFree := by simp [meminfoValues]
  swapCached := hcached

theorem memory_figures_exact :
    (meminfoValues 4 1).RamLaw (some (meminfoText "4" "1")) ∧
      (meminfoValues 4 1).SwapLaw (some (meminfoText "4" "1")) := by
  have hdomain : (meminfoValues 4 1).Plausible :=
    meminfoValues_domain (by decide) (by decide)
  have hread : (meminfoValues 4 1).ReadFrom (some (meminfoText "4" "1")) :=
    ⟨by decide +kernel, by decide +kernel⟩
  obtain ⟨hram, hswap⟩ := memory_figures_iff hdomain hread
  exact ⟨hram.mpr (by decide +kernel), hswap.mpr (by decide +kernel)⟩

theorem memory_figures_wrap :
    (meminfoValues 9 3).Plausible ∧ (meminfoValues 9 3).ReadFrom (some (meminfoText "9" "3")) ∧
      ¬ (meminfoValues 9 3).RamLaw (some (meminfoText "9" "3")) ∧
      ¬ (meminfoValues 9 3).SwapLaw (some (meminfoText "9" "3")) := by
  have hdomain : (meminfoValues 9 3).Plausible :=
    meminfoValues_domain (by decide) (by decide)
  have hread : (meminfoValues 9 3).ReadFrom (some (meminfoText "9" "3")) :=
    ⟨by decide +kernel, by decide +kernel⟩
  refine ⟨hdomain, hread, fun h => ?_, fun h => ?_⟩
  · exact absurd ((ramLaw_iff hdomain hread).mp h) (by decide +kernel)
  · exact absurd ((swapLaw_iff hdomain hread).mp h) (by decide +kernel)

end Slstatus
