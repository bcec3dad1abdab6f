import Slstatus.BsdMemory

/-! For which counters the memory figures of the BSDs are exact: no product that is
computed on the way may leave the type of its operands. -/

namespace Slstatus

def HandsBytes (result : Except Fault Reading) (bytes : Nat) : Prop :=
  ∃ text, result = .ok ⟨some bytes, some text⟩

/-- The percentage, rounded down, of a total that may be 0. -/
def PrintsPercent (result : Except Fault Reading) (used total : Nat) : Prop :=
  result = if total = 0 then .ok .null
    else .ok ⟨some (100 * used / total : Nat), some (decimal (100 * used / total))⟩

section Figures

variable {t : CInt.Ty} {used total : Nat}

theorem handsBytes_iff {bytes : Nat} (h : bytes < 2 ^ 63) :
    HandsBytes (Reading.humanOf (CInt.result t bytes)) bytes ↔ t.Holds bytes := by
  constructor
  · intro hex
    obtain ⟨text, htext⟩ := hex
    by_contra hnot
    cases hsigned : t.signed with
    | true =>
      rw [CInt.result, dif_neg hnot, if_pos hsigned] at htext
      cases htext
    | false =>
      obtain ⟨size, -, hpos, hge, hlow, hresult⟩ := CInt.result_of_unsigned hsigned hnot
      obtain ⟨text', htext'⟩ := humanOf_gives ⟨hlow, hresult⟩
      have hval := Option.some.inj (Reading.mk.inj (Except.ok.inj (htext'.symm.trans htext))).1
      have hnat : (((bytes % size : Nat) : Int) % 2 ^ 64).toNat = bytes := by exact_mod_cast hval
      have := Nat.mod_lt bytes hpos
      omega
  · intro hholds
    obtain ⟨text, htext⟩ := humanOf_gives ⟨hholds, CInt.result_of_holds hholds⟩
    have hmod : ((bytes : Int) % 2 ^ 64).toNat = bytes := by omega
    exact ⟨text, by rw [htext, hmod]⟩

/-- A product that wraps around loses at least a whole total, so that the percentage comes
out too small. -/
theorem div_lt_of_wrapped {size : Nat} (hlt : total < size) (hpos : 0 < total)
    (hsize : size ≤ 100 * used) : (100 * used) % size / total < 100 * used / total := by
  have hle : (100 * used) % size + total ≤ 100 * used := by
    have := Nat.mod_add_div (100 * used) size
    have : size * 1 ≤ size * (100 * used / size) :=
      Nat.mul_le_mul_left size ((Nat.one_le_div_iff (by omega)).mpr hsize)
    omega
  calc (100 * used) % size / total < (100 * used) % size / total + 1 := Nat.lt_succ_self _
    _ = ((100 * used) % size + total) / total := (Nat.add_div_right _ hpos).symm
    _ ≤ 100 * used / total := Nat.div_le_div_right hle

theorem decimalOf_div {z : Nat} (hz : t.Holds z) (ht : t.Holds total) (hpos : 0 < total)
    (hle : z / total ≤ 100) :
    Reading.decimalOf (CInt.div ⟨t, z, hz⟩ ⟨t, total, ht⟩) =
      .ok ⟨some (z / total : Nat), some (decimal (z / total))⟩ := by
  have hself : CInt.Ty.common t t = t := by cases t <;> rfl
  have hdiv : CInt.Gives (CInt.div ⟨t, z, hz⟩ ⟨t, total, ht⟩) (CInt.Ty.common t t)
      ((z / total : Nat) : Int) :=
    CInt.gives_div (hself.symm ▸ hz) (hself.symm ▸ ht) (Int.natCast_nonneg z) (by omega)
  exact decimalOf_gives hdiv hle

theorem printsPercent_iff (ht : t.Holds total) (hle : used ≤ total) :
    PrintsPercent (Reading.decimalOf do
      CInt.div (← CInt.result t (100 * used : Nat)) ⟨t, total, ht⟩) used total ↔
      total ≠ 0 ∧ t.Holds (100 * used : Nat) := by
  rcases Nat.eq_zero_or_pos total with rfl | hpos
  · obtain rfl : used = 0 := by omega
    refine iff_of_false ?_ (fun h => h.1 rfl)
    have hfault : Reading.decimalOf (do
        CInt.div (← CInt.result t (100 * 0 : Nat)) ⟨t, (0 : Nat), ht⟩) = .error .divByZero := by
      rw [CInt.result_of_holds ht]
      exact congrArg Reading.decimalOf (CInt.div_zero ht)
    rw [PrintsPercent, hfault, if_pos rfl]
    intro h
    cases h
  · have hne : total ≠ 0 := by omega
    rw [PrintsPercent, if_neg hne, and_iff_right hne]
    by_cases hholds : t.Holds (100 * used : Nat)
    · rw [CInt.result_of_holds hholds]
      exact iff_of_true (decimalOf_div hholds ht hpos (percent_le hle hpos)) hholds
    · refine iff_of_false ?_ hholds
      cases hsigned : t.signed with
      | true =>
        rw [CInt.result, dif_neg hholds, if_pos hsigned]
        intro h
        cases h
      | false =>
        obtain ⟨size, hsize, -, hge, hlow, hresult⟩ := CInt.result_of_unsigned hsigned hholds
        have hlt : 100 * used % size / total < 100 * used / total :=
          div_lt_of_wrapped (by have := ht.2; omega) hpos hge
        have hshown := decimalOf_div hlow ht hpos (hlt.le.trans (percent_le hle hpos))
        rw [hresult]
        intro h
        have hval := Option.some.inj (Reading.mk.inj (Except.ok.inj (hshown.symm.trans h))).1
        have heq : 100 * used % size / total = 100 * used / total := by exact_mod_cast hval
        omega

theorem handsBytes_mul_iff {n k : Nat} (hn : t.Holds n) (hk : CInt.Ty.int.Holds k)
    (h : n * k < 2 ^ 63) :
    HandsBytes (Reading.humanOf (CInt.mul ⟨t, n, hn⟩ (CInt.int k))) (n * k) ↔
      (n * k : Nat) < (CInt.Ty.common t .int).hi := by
  have hmul : CInt.mul ⟨t, n, hn⟩ (CInt.int k) = CInt.result (CInt.Ty.common t .int) (n * k : Nat) :=
    CInt.int_eq hk ▸ CInt.mul_nat hn hk
  rw [hmul, handsBytes_iff h, CInt.Ty.holds_nat]

theorem percent_mul (hused : t.Holds used) :
    CInt.mul ⟨t, used, hused⟩ (CInt.int 100) =
      CInt.result (CInt.Ty.common t .int) (100 * used : Nat) := by
  rw [Nat.mul_comm]
  exact CInt.mul_nat (n := 100) hused (by decide)

end Figures

namespace OpenBsd

/-- The KiB of a list of swap devices, of which each counts blocks of 512 bytes. -/
def kib (blocks : SwapEnt → Int32) (sep : List SwapEnt) : Nat :=
  (sep.map (fun ent => (blocks ent).toInt.toNat / 2)).sum

/-- Counters as the system keeps them: nothing is negative, no more is used than there is,
and the KiB of the swap devices fit an int. -/
structure Counters where
  sep : List SwapEnt
  uvmexp : Uvmexp
  sep_ne_nil : sep ≠ []
  blocks : ∀ ent ∈ sep, 0 ≤ ent.seNblks.toInt ∧ 0 ≤ ent.seInuse.toInt
  inuse_le : kib SwapEnt.seInuse sep ≤ kib SwapEnt.seNblks sep
  nblks_lt : kib SwapEnt.seNblks sep < 2 ^ 31
  pageshift : uvmexp.pageshift = 12
  active : 0 ≤ uvmexp.active.toInt ∧ uvmexp.active.toInt ≤ uvmexp.npages.toInt

namespace Counters

def swapctl (c : Counters) : Swapctl := ⟨c.sep.length, true, some c.sep⟩

def total (c : Counters) : Nat := kib SwapEnt.seNblks c.sep

def used (c : Counters) : Nat := kib SwapEnt.seInuse c.sep

def pages (c : Counters) : Nat := c.uvmexp.npages.toInt.toNat

def activePages (c : Counters) : Nat := c.uvmexp.active.toInt.toNat

end Counters

theorem int_holds {n : Nat} (h : n < 2 ^ 31) : CInt.Ty.int.Holds n :=
  CInt.Ty.holds_nat.mpr (by simp only [CInt.Ty.hi]; omega)

theorem int_holds_iff {n : Nat} : CInt.Ty.int.Holds n ↔ n < 2 ^ 31 :=
  ⟨fun h => by have : (n : Int) < 2 ^ 31 := h.2; omega, int_holds⟩

theorem intVal_eq {n : Int32} (h : 0 ≤ n.toInt) : ∃ h, intVal n = ⟨.int, n.toInt.toNat, h⟩ := by
  have hnat : n.toInt = (n.toInt.toNat : Int) := by omega
  exact ⟨hnat ▸ (intVal n).holds, by simp only [intVal, ← hnat]⟩

theorem addHalf_eq {n : Int32} (h0 : 0 ≤ n.toInt) {sum : Nat} (hsum : CInt.Ty.int.Holds sum)
    (h : sum + n.toInt.toNat / 2 < 2 ^ 31) :
    addHalf ⟨.int, sum, hsum⟩ n = .ok ⟨.int, (sum + n.toInt.toNat / 2 : Nat), int_holds h⟩ := by
  obtain ⟨hn, heq⟩ := intVal_eq h0
  obtain ⟨hhalf, hshr⟩ : ∃ h, CInt.shr ⟨.int, n.toInt.toNat, hn⟩ 1 =
      .ok ⟨.int, (n.toInt.toNat / 2 : Nat), h⟩ := CInt.shr_nat hn (k := 1)
  simp only [addHalf, heq, hshr, bind, Except.bind]
  exact CInt.add_nat hsum hhalf (int_holds h)

theorem addStats_eq {sep : List SwapEnt} {total used : Nat} (ht : CInt.Ty.int.Holds total)
    (hu : CInt.Ty.int.Holds used)
    (hblocks : ∀ ent ∈ sep, 0 ≤ ent.seNblks.toInt ∧ 0 ≤ ent.seInuse.toInt)
    (htotal : total + kib SwapEnt.seNblks sep < 2 ^ 31)
    (hused : used + kib SwapEnt.seInuse sep < 2 ^ 31) :
    addStats sep ⟨.int, total, ht⟩ ⟨.int, used, hu⟩ =
      .ok (⟨.int, (total + kib SwapEnt.seNblks sep : Nat), int_holds htotal⟩,
        ⟨.int, (used + kib SwapEnt.seInuse sep : Nat), int_holds hused⟩) := by
  induction sep generalizing total used with
  | nil => rfl
  | cons ent sep ih =>
    obtain ⟨hnblks, hinuse⟩ := hblocks ent List.mem_cons_self
    have htotal' : total + ent.seNblks.toInt.toNat / 2 + kib SwapEnt.seNblks sep < 2 ^ 31 := by
      simpa only [kib, List.map_cons, List.sum_cons, Nat.add_assoc] using htotal
    have hused' : used + ent.seInuse.toInt.toNat / 2 + kib SwapEnt.seInuse sep < 2 ^ 31 := by
      simpa only [kib, List.map_cons, List.sum_cons, Nat.add_assoc] using hused
    have ht' : total + ent.seNblks.toInt.toNat / 2 < 2 ^ 31 := by omega
    have hu' : used + ent.seInuse.toInt.toNat / 2 < 2 ^ 31 := by omega
    simp only [addStats, addHalf_eq hnblks ht ht', addHalf_eq hinuse hu hu', bind, Except.bind]
    have hrest := ih (int_holds ht') (int_holds hu')
      (fun d hd => hblocks d (List.mem_cons_of_mem ent hd)) htotal' hused'
    simp only [kib, List.map_cons, List.sum_cons, ← Nat.add_assoc] at hrest ⊢
    exact hrest

section Swap

variable (c : Counters)

theorem total_holds : CInt.Ty.int.Holds c.total := int_holds c.nblks_lt

theorem used_holds : CInt.Ty.int.Holds c.used := int_holds (Nat.lt_of_le_of_lt c.inuse_le c.nblks_lt)

theorem getstats_eq : getstats c.swapctl =
    .ok (some (⟨.int, c.total, total_holds c⟩, ⟨.int, c.used, used_holds c⟩)) := by
  have hlen : ¬ (c.sep.length : Int) < 1 := by
    have := List.length_pos_of_ne_nil c.sep_ne_nil
    omega
  have hzero : CInt.Ty.int.Holds (0 : Nat) := int_holds (by decide)
  have htotal : 0 + kib SwapEnt.seNblks c.sep < 2 ^ 31 := by have := c.nblks_lt; omega
  have hused : 0 + kib SwapEnt.seInuse c.sep < 2 ^ 31 := by
    have := c.inuse_le
    omega
  have hrun := addStats_eq hzero hzero c.blocks htotal hused
  simp only [getstats, Counters.swapctl, if_neg hlen, Bool.not_true, Bool.false_eq_true, if_false,
    ne_eq, not_true]
  simp only [Nat.zero_add] at hrun
  exact congrArg (Except.map some) hrun

theorem kib_iff {n : Nat} (hn : CInt.Ty.int.Holds n) :
    HandsBytes (Reading.humanOf (CInt.mul ⟨.int, n, hn⟩ (CInt.int 1024))) (n * 1024) ↔
      n * 1024 < 2 ^ 31 := by
  have hlt : (n : Int) < 2 ^ 31 := hn.2
  refine (handsBytes_mul_iff (k := 1024) hn (by decide) (by omega)).trans ?_
  simp only [CInt.Ty.common, CInt.Ty.hi]
  omega

theorem swapFree_iff : HandsBytes (swapFree c.swapctl) ((c.total - c.used) * 1024) ↔
    (c.total - c.used) * 1024 < 2 ^ 31 := by
  obtain ⟨hrest, hsub⟩ := CInt.sub_nat (total_holds c) (used_holds c) c.inuse_le
  rw [swapFree, withStats, getstats_eq]
  dsimp only
  rw [hsub, CInt.ok_bind]
  exact kib_iff hrest

theorem swapTotal_iff : HandsBytes (swapTotal c.swapctl) (c.total * 1024) ↔
    c.total * 1024 < 2 ^ 31 := by
  rw [swapTotal, withStats, getstats_eq]
  exact kib_iff (total_holds c)

theorem swapUsed_iff : HandsBytes (swapUsed c.swapctl) (c.used * 1024) ↔
    c.used * 1024 < 2 ^ 31 := by
  rw [swapUsed, withStats, getstats_eq]
  exact kib_iff (used_holds c)

theorem swapPerc_iff : PrintsPercent (swapPerc c.swapctl) c.used c.total ↔
    100 * c.used < 2 ^ 31 := by
  have hmul : CInt.mul (CInt.int 100) ⟨.int, c.used, used_holds c⟩ =
      CInt.result .int (100 * c.used : Nat) :=
    CInt.mul_nat (t := .int) (u := .int) (m := 100) (by decide) (used_holds c)
  rw [swapPerc, withStats, getstats_eq]
  dsimp only
  rw [hmul]
  by_cases hzero : c.total = 0
  · have hle := c.inuse_le
    have hused : c.used = 0 := Nat.eq_zero_of_le_zero (hzero ▸ hle)
    simp [PrintsPercent, hzero, hused]
  · rw [if_neg (by omega), ← int_holds_iff]
    refine (printsPercent_iff (total_holds c) c.inuse_le).trans ?_
    exact and_iff_right hzero

end Swap

section Ram

/-- The pages are shifted as an int, before they are widened. -/
theorem pagetok_eq {n : Nat} (hn : CInt.Ty.int.Holds n) :
    pagetok ⟨.int, n, hn⟩ 12 =
      if h : n * 4 < 2 ^ 31 then
        .ok ⟨.ulong, (n * 4 : Nat), CInt.Ty.holds_common_left (u := .ulong) (int_holds h) (by omega)⟩
      else .error .overflow := by
  have hshl : CInt.shl ⟨.int, n, hn⟩ 2 = CInt.result .int (n * 4 : Nat) :=
    CInt.shl_eq (Int.natCast_nonneg n)
  have hshift : pagetok ⟨.int, n, hn⟩ 12 =
      (CInt.shl ⟨.int, n, hn⟩ 2).map (CInt.convert .ulong) := rfl
  rw [hshift, hshl]
  split_ifs with h
  · rw [CInt.result_of_holds (int_holds h)]
    exact congrArg Except.ok (CInt.convert_eq _)
  · have hnot : ¬ CInt.Ty.int.Holds (n * 4 : Nat) := fun hholds => h (int_holds_iff.mp hholds)
    rw [CInt.result, dif_neg hnot]
    rfl

theorem pagesHuman_iff {u : Uvmexp} (hshift : u.pageshift = 12) {n : Nat}
    (hn : CInt.Ty.int.Holds n) :
    HandsBytes (pagesHuman u ⟨.int, n, hn⟩) (n * 4096) ↔ n * 4 < 2 ^ 31 := by
  have hbytes : n * 4096 = n * 4 * 1024 := by omega
  rw [hbytes, pagesHuman, hshift, pagetok_eq]
  split_ifs with h
  · rw [CInt.ok_bind]
    refine (handsBytes_mul_iff (k := 1024) _ (by decide) (by omega)).trans ?_
    simp only [CInt.Ty.common, CInt.Ty.hi]
    omega
  · refine iff_of_false ?_ h
    intro hex
    obtain ⟨text, htext⟩ := hex
    cases htext

variable (c : Counters)

theorem pages_eq : ∃ h, intVal c.uvmexp.npages = ⟨.int, c.pages, h⟩ :=
  intVal_eq (Int.le_trans c.active.1 c.active.2)

theorem activePages_eq : ∃ h, intVal c.uvmexp.active = ⟨.int, c.activePages, h⟩ :=
  intVal_eq c.active.1

theorem activePages_le : c.activePages ≤ c.pages := by
  have := c.active.2
  simp only [Counters.activePages, Counters.pages]
  omega

theorem ramFree_iff : HandsBytes (ramFree (some c.uvmexp)) ((c.pages - c.activePages) * 4096) ↔
    (c.pages - c.activePages) * 4 < 2 ^ 31 := by
  obtain ⟨hpages, hpages_eq⟩ := pages_eq c
  obtain ⟨hactive, hactive_eq⟩ := activePages_eq c
  obtain ⟨hrest, hsub⟩ := CInt.sub_nat hpages hactive (activePages_le c)
  simp only [ramFree, hpages_eq, hactive_eq, hsub]
  exact pagesHuman_iff c.pageshift hrest

theorem ramTotal_iff : HandsBytes (ramTotal (some c.uvmexp)) (c.pages * 4096) ↔
    c.pages * 4 < 2 ^ 31 := by
  obtain ⟨hpages, hpages_eq⟩ := pages_eq c
  rw [ramTotal, hpages_eq]
  exact pagesHuman_iff c.pageshift hpages

theorem ramUsed_iff : HandsBytes (ramUsed (some c.uvmexp)) (c.activePages * 4096) ↔
    c.activePages * 4 < 2 ^ 31 := by
  obtain ⟨hactive, hactive_eq⟩ := activePages_eq c
  rw [ramUsed, hactive_eq]
  exact pagesHuman_iff c.pageshift hactive

theorem ramPerc_iff : PrintsPercent (ramPerc (some c.uvmexp)) c.activePages c.pages ↔
    c.pages ≠ 0 ∧ 100 * c.activePages < 2 ^ 31 := by
  obtain ⟨hpages, hpages_eq⟩ := pages_eq c
  obtain ⟨hactive, hactive_eq⟩ := activePages_eq c
  rw [ramPerc, hpages_eq, hactive_eq]
  rw [percent_mul, ← int_holds_iff]
  exact printsPercent_iff hpages (activePages_le c)

end Ram

end OpenBsd

namespace FreeBsd

/-- As for OpenBSD; the totals of the swap devices need not be bounded here, and what is
free has some type of its own. -/
structure Counters where
  swap : KvmSwap
  npages : UInt32
  active : UInt32
  tFree : CInt.Val
  kswUsed_le : swap.kswUsed ≤ swap.kswTotal
  active_le : active ≤ npages
  tFree_nonneg : 0 ≤ tFree.z
  tFree_lt : tFree.z * 4096 < 2 ^ 63

section Swap

theorem long_eq (n : UInt32) : ∃ h, CInt.convert .long (uintVal n) = ⟨.long, n.toNat, h⟩ := by
  have h : CInt.Ty.long.Holds n.toNat := CInt.Ty.holds_nat.mpr (by
    have := n.toNat_lt
    simp only [CInt.Ty.hi]
    omega)
  exact ⟨h, CInt.convert_eq h⟩

theorem pages_human {n : Nat} (hn : CInt.Ty.long.Holds n) (hlt : n < 2 ^ 32) :
    HandsBytes (Reading.humanOf (CInt.mul ⟨.long, n, hn⟩ getpagesize)) (n * 4096) := by
  refine (handsBytes_mul_iff (k := 4096) hn (by decide) (by omega)).mpr ?_
  simp only [CInt.Ty.common, CInt.Ty.hi]
  omega

variable (c : Counters)

theorem swap_exact :
    HandsBytes (swapFree (some c.swap)) ((c.swap.kswTotal.toNat - c.swap.kswUsed.toNat) * 4096) ∧
      HandsBytes (swapTotal (some c.swap)) (c.swap.kswTotal.toNat * 4096) ∧
      HandsBytes (swapUsed (some c.swap)) (c.swap.kswUsed.toNat * 4096) := by
  obtain ⟨htotal, htotal_eq⟩ := long_eq c.swap.kswTotal
  obtain ⟨hused, hused_eq⟩ := long_eq c.swap.kswUsed
  obtain ⟨hrest, hsub⟩ := CInt.sub_nat htotal hused c.kswUsed_le
  have hlt := c.swap.kswTotal.toNat_lt
  refine ⟨?_, ?_, ?_⟩
  · rw [swapFree, KvmSwap.total, KvmSwap.used, htotal_eq, hused_eq, hsub, CInt.ok_bind]
    exact pages_human hrest (by omega)
  · rw [swapTotal, KvmSwap.total, htotal_eq]
    exact pages_human htotal hlt
  · rw [swapUsed, KvmSwap.used, hused_eq]
    exact pages_human hused c.swap.kswUsed.toNat_lt

theorem swapPerc_iff :
    PrintsPercent (swapPerc (some c.swap)) c.swap.kswUsed.toNat c.swap.kswTotal.toNat ↔
      c.swap.kswTotal.toNat ≠ 0 := by
  obtain ⟨htotal, htotal_eq⟩ := long_eq c.swap.kswTotal
  obtain ⟨hused, hused_eq⟩ := long_eq c.swap.kswUsed
  have hlong : CInt.Ty.long.Holds (100 * c.swap.kswUsed.toNat : Nat) := CInt.Ty.holds_nat.mpr (by
    have := c.swap.kswUsed.toNat_lt
    simp only [CInt.Ty.hi]
    omega)
  rw [swapPerc, KvmSwap.total, KvmSwap.used, htotal_eq, hused_eq]
  rw [percent_mul]
  refine (printsPercent_iff htotal c.kswUsed_le).trans ?_
  exact and_iff_left hlong

end Swap

section Ram

theorem uintPages_iff (n : UInt32) :
    HandsBytes (Reading.humanOf (CInt.mul (uintVal n) getpagesize)) (n.toNat * 4096) ↔
      n.toNat * 4096 < 2 ^ 32 := by
  have hlt := n.toNat_lt
  refine (handsBytes_mul_iff (k := 4096) (uint_holds n) (by decide) (by omega)).trans ?_
  simp only [CInt.Ty.common, CInt.Ty.hi]
  omega

variable (c : Counters)

theorem ramFree_iff : HandsBytes (ramFree (some c.tFree)) (c.tFree.z.toNat * 4096) ↔
    c.tFree.z * 4096 < (CInt.Ty.common c.tFree.ty .int).hi := by
  have h0 := c.tFree_nonneg
  have hlt := c.tFree_lt
  generalize c.tFree = tFree at h0 hlt ⊢
  obtain ⟨t, z, hz⟩ := tFree
  obtain ⟨n, rfl⟩ := Int.eq_ofNat_of_zero_le h0
  have hbytes : (n : Int) * 4096 < 2 ^ 63 := hlt
  refine (handsBytes_mul_iff (k := 4096) hz (by decide) (by omega)).trans ?_
  rw [Int.natCast_mul]
  rfl

theorem ramPerc_iff :
    PrintsPercent (ramPerc (some c.npages) (some c.active)) c.active.toNat c.npages.toNat ↔
      c.npages.toNat ≠ 0 ∧ 100 * c.active.toNat < 2 ^ 32 := by
  have hmul : CInt.mul (uintVal c.active) (CInt.int 100) =
      CInt.result .uint (100 * c.active.toNat : Nat) := percent_mul (uint_holds c.active)
  have huint : CInt.Ty.uint.Holds (100 * c.active.toNat : Nat) ↔ 100 * c.active.toNat < 2 ^ 32 := by
    rw [CInt.Ty.holds_nat]
    simp only [CInt.Ty.hi]
    omega
  rw [ramPerc, hmul, ← huint]
  exact printsPercent_iff (uint_holds c.npages) c.active_le

end Ram

end FreeBsd

/-- The figures of the BSDs, each with the condition on the counters under which it is
exact. -/
theorem bsd_figures_iff (o : OpenBsd.Counters) (f : FreeBsd.Counters) :
    (HandsBytes (OpenBsd.swapFree o.swapctl) ((o.total - o.used) * 1024) ↔
      (o.total - o.used) * 1024 < 2 ^ 31) ∧
    (HandsBytes (OpenBsd.swapTotal o.swapctl) (o.total * 1024) ↔ o.total * 1024 < 2 ^ 31) ∧
    (HandsBytes (OpenBsd.swapUsed o.swapctl) (o.used * 1024) ↔ o.used * 1024 < 2 ^ 31) ∧
    (PrintsPercent (OpenBsd.swapPerc o.swapctl) o.used o.total ↔ 100 * o.used < 2 ^ 31) ∧
    (HandsBytes (OpenBsd.ramFree (some o.uvmexp)) ((o.pages - o.activePages) * 4096) ↔
      (o.pages - o.activePages) * 4 < 2 ^ 31) ∧
    (HandsBytes (OpenBsd.ramTotal (some o.uvmexp)) (o.pages * 4096) ↔ o.pages * 4 < 2 ^ 31) ∧
    (HandsBytes (OpenBsd.ramUsed (some o.uvmexp)) (o.activePages * 4096) ↔
      o.activePages * 4 < 2 ^ 31) ∧
    (PrintsPercent (OpenBsd.ramPerc (some o.uvmexp)) o.activePages o.pages ↔
      o.pages ≠ 0 ∧ 100 * o.activePages < 2 ^ 31) ∧
    (HandsBytes (FreeBsd.swapFree (some f.swap))
        ((f.swap.kswTotal.toNat - f.swap.kswUsed.toNat) * 4096) ∧
      HandsBytes (FreeBsd.swapTotal (some f.swap)) (f.swap.kswTotal.toNat * 4096) ∧
      HandsBytes (FreeBsd.swapUsed (some f.swap)) (f.swap.kswUsed.toNat * 4096)) ∧
    (PrintsPercent (FreeBsd.swapPerc (some f.swap)) f.swap.kswUsed.toNat f.swap.kswTotal.toNat ↔
      f.swap.kswTotal.toNat ≠ 0) ∧
    (HandsBytes (FreeBsd.ramFree (some f.tFree)) (f.tFree.z.toNat * 4096) ↔
      f.tFree.z * 4096 < (CInt.Ty.common f.tFree.ty .int).hi) ∧
    (HandsBytes (FreeBsd.ramTotal (some f.npages)) (f.npages.toNat * 4096) ↔
      f.npages.toNat * 4096 < 2 ^ 32) ∧
    (HandsBytes (FreeBsd.ramUsed (some f.active)) (f.active.toNat * 4096) ↔
      f.active.toNat * 4096 < 2 ^ 32) ∧
    (PrintsPercent (FreeBsd.ramPerc (some f.npages) (some f.active)) f.active.toNat f.npages.toNat ↔
      f.npages.toNat ≠ 0 ∧ 100 * f.active.toNat < 2 ^ 32) :=
  ⟨OpenBsd.swapFree_iff o, OpenBsd.swapTotal_iff o, OpenBsd.swapUsed_iff o, OpenBsd.swapPerc_iff o,
    OpenBsd.ramFree_iff o, OpenBsd.ramTotal_iff o, OpenBsd.ramUsed_iff o, OpenBsd.ramPerc_iff o,
    FreeBsd.swap_exact f, FreeBsd.swapPerc_iff f, FreeBsd.ramFree_iff f,
    FreeBsd.uintPages_iff f.npages, FreeBsd.uintPages_iff f.active, FreeBsd.ramPerc_iff f⟩

/-- A swap device of 2 GiB. -/
def bigOpenBsd : OpenBsd.Counters where
  sep := [⟨4194304, 0⟩]
  uvmexp := ⟨2097152, 0, 12⟩
  sep_ne_nil := by decide
  blocks := by decide
  inuse_le := by decide
  nblks_lt := by decide
  pageshift := rfl
  active := by decide

/-- No swap device and 4 GiB of memory. -/
def bigFreeBsd : FreeBsd.Counters where
  swap := ⟨0, 0⟩
  npages := 1048576
  active := 0
  tFree := CInt.int 1048576
  kswUsed_le := by decide
  active_le := by decide
  tFree_nonneg := by decide
  tFree_lt := by decide

theorem bsd_figures_wrap :
    ¬ HandsBytes (OpenBsd.swapTotal bigOpenBsd.swapctl) (bigOpenBsd.total * 1024) ∧
      ¬ HandsBytes (FreeBsd.ramTotal (some bigFreeBsd.npages)) (bigFreeBsd.npages.toNat * 4096) ∧
      ¬ PrintsPercent (FreeBsd.swapPerc (some bigFreeBsd.swap)) 0 0 := by
  refine ⟨fun h => ?_, fun h => ?_, fun h => ?_⟩
  · exact absurd ((OpenBsd.swapTotal_iff bigOpenBsd).mp h) (by decide)
  · exact absurd ((FreeBsd.uintPages_iff bigFreeBsd.npages).mp h) (by decide)
  · exact (FreeBsd.swapPerc_iff bigFreeBsd).mp h rfl

end Slstatus
