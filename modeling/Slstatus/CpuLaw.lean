import Slstatus.Counters

/-! The share of the processor that `cpu_perc` shows over a run of calls, against the
counters of /proc/stat at the calls that read all of them. -/

namespace Slstatus

/-- What one call finds: the counters of that moment, of which the scan converts the
first `converted`, or a file that cannot be opened. -/
structure StatRead where
  sample : CpuStat
  converted : Option Nat

def CpuStat.fields (a : CpuStat) : List Int :=
  [a.user, a.nice, a.system, a.idle, a.iowait, a.irq, a.softirq]

namespace StatRead

def stat (r : StatRead) : Option (List Int) := r.converted.map (fun n => r.sample.fields.take n)

def Complete (r : StatRead) : Prop := ∃ n ∈ r.converted, 7 ≤ n

instance (r : StatRead) : Decidable r.Complete := Option.decidableExistsMem r.converted

end StatRead

/-- All counters but `iowait` grow. -/
structure CpuStat.Before (a b : CpuStat) : Prop where
  user : a.user ≤ b.user
  nice : a.nice ≤ b.nice
  system : a.system ≤ b.system
  idle : a.idle ≤ b.idle
  irq : a.irq ≤ b.irq
  softirq : a.softirq ≤ b.softirq

instance (a b : CpuStat) : Decidable (a.Before b) :=
  decidable_of_iff (a.user ≤ b.user ∧ a.nice ≤ b.nice ∧ a.system ≤ b.system ∧ a.idle ≤ b.idle ∧
    a.irq ≤ b.irq ∧ a.softirq ≤ b.softirq)
    ⟨fun ⟨h₁, h₂, h₃, h₄, h₅, h₆⟩ => ⟨h₁, h₂, h₃, h₄, h₅, h₆⟩,
      fun ⟨h₁, h₂, h₃, h₄, h₅, h₆⟩ => ⟨h₁, h₂, h₃, h₄, h₅, h₆⟩⟩

/-- `P` holds at every call of the run: of the last complete sample before it, the
stored one and what the call finds. -/
def OnReads (P : Option CpuStat → CpuStat → StatRead → Prop) :
    Option CpuStat → CpuStat → List StatRead → Prop
  | _, _, [] => True
  | last, b, r :: reads =>
    P last b r ∧ OnReads P (if r.Complete then some r.sample else last) (cpuPerc r.stat b).2 reads

instance decidableOnReads {P : Option CpuStat → CpuStat → StatRead → Prop}
    [∀ last b r, Decidable (P last b r)] : ∀ last b reads, Decidable (OnReads P last b reads)
  | _, _, [] => inferInstanceAs (Decidable True)
  | last, b, r :: reads =>
    have : Decidable (OnReads P (if r.Complete then some r.sample else last)
        (cpuPerc r.stat b).2 reads) := decidableOnReads _ _ reads
    inferInstanceAs (Decidable (P last b r ∧ _))

/-- What is asked of a call: a number it shows is the share of the time since the last
complete sample, and a read that fails leaves the stored sample alone. -/
structure CpuLaw (last : Option CpuStat) (b : CpuStat) (r : StatRead)
    (result : Reading × CpuStat) : Prop where
  shown : result.1 ≠ .null → ∃ old, last = some old ∧ r.Complete ∧
    ∃ percent : Int, percent =
        (100 * (r.sample.busy - old.busy)).tdiv (r.sample.total - old.total) ∧
      0 ≤ percent ∧ percent ≤ 100 ∧ result.1 = ⟨some percent, some (decimalInt percent)⟩
  kept : ¬ r.Complete → result.2 = b

/-- A share of `busy` in `total` that comes out between 0 and 100. -/
def InPercent (busy total : Int) : Prop := 100 * busy < 101 * total ∨ 100 * busy < -total

instance (busy total : Int) : Decidable (InPercent busy total) :=
  inferInstanceAs (Decidable (_ ∨ _))

/-- A complete read gives a share, if it gives any, that is a percentage, and another one
converts nothing that differs from the stored sample. -/
def CpuSteady (b : CpuStat) (r : StatRead) : Prop :=
  if r.Complete then
    b.user = 0 ∨ r.sample.total = b.total ∨
      InPercent (r.sample.busy - b.busy) (r.sample.total - b.total)
  else ∀ n ∈ r.converted, r.sample.fields.take n = b.fields.take n

instance (b : CpuStat) (r : StatRead) : Decidable (CpuSteady b r) :=
  have : Decidable (∀ n ∈ r.converted, r.sample.fields.take n = b.fields.take n) :=
    Option.decidableForallMem r.converted
  inferInstanceAs (Decidable (if r.Complete then _ else _))

theorem percent_iff {busy total : Int} (hbusy : 0 ≤ busy) (htotal : total ≠ 0) :
    0 ≤ (100 * busy).tdiv total ∧ (100 * busy).tdiv total ≤ 100 ↔ InPercent busy total := by
  have hnum : 0 ≤ 100 * busy := by omega
  unfold InPercent
  rcases Int.lt_or_gt_of_ne htotal with hneg | hpos
  · have hflip : (100 * busy).tdiv total = -(100 * busy / -total) := by
      rw [← Int.tdiv_eq_ediv_of_nonneg hnum, Int.tdiv_neg, Int.neg_neg]
    have hquot : 0 ≤ 100 * busy / -total := Int.ediv_nonneg hnum (by omega)
    have hzero : 100 * busy / -total < 1 ↔ 100 * busy < 1 * -total :=
      Int.ediv_lt_iff_lt_mul (by omega)
    rw [hflip]
    omega
  · have hsame : (100 * busy).tdiv total = 100 * busy / total := Int.tdiv_eq_ediv_of_nonneg hnum
    have hquot : 0 ≤ 100 * busy / total := Int.ediv_nonneg hnum (by omega)
    have hlt : 100 * busy / total < 101 ↔ 100 * busy < 101 * total :=
      Int.ediv_lt_iff_lt_mul hpos
    rw [hsame]
    omega

theorem tdiv_flip (x y : Int) : (100 * -x).tdiv (-y) = (100 * x).tdiv y := by
  rw [Int.mul_neg, Int.neg_tdiv, Int.tdiv_neg, Int.neg_neg]

theorem decimalInt_fits {z : Int} (h0 : 0 ≤ z) (h100 : z ≤ 100) :
    bprintf (decimalInt z) = some (decimalInt z) := by
  have hlen : (decimal z.natAbs).length ≤ 3 := decimal_length_le (by omega) (by omega)
  rw [bprintf, if_neg]
  rw [decimalInt, if_neg (by omega)]
  omega

namespace CpuStat

theorem assign_take (a b : CpuStat) (n : Nat) :
    b.assign (a.fields.take n) = b ↔ a.fields.take n = b.fields.take n := by
  cases b with
  | mk user nice system idle iowait irq softirq =>
  rcases n with _ | _ | _ | _ | _ | _ | _ | n <;> simp [assign, fields]

theorem assign_complete (a b : CpuStat) {n : Nat} (h : 7 ≤ n) :
    b.assign (a.fields.take n) = a := by
  rw [List.take_of_length_le (by simpa [fields] using h)]
  rfl

theorem Before.busy_le {a b : CpuStat} (h : a.Before b) : 0 ≤ b.busy - a.busy := by
  have := h.user
  have := h.nice
  have := h.system
  have := h.irq
  have := h.softirq
  simp only [busy]
  omega

end CpuStat

section Call

variable {last : Option CpuStat} {b : CpuStat} {r : StatRead}

theorem cpuLaw_of_null {new : CpuStat} (hnew : ¬ r.Complete → new = b) :
    CpuLaw last b r (.null, new) where
  shown h := absurd rfl h
  kept := hnew

theorem cpuPerc_partial {n : Nat} (hn : r.converted = some n) (hlt : n < 7) :
    cpuPerc r.stat b = (.null, b.assign (r.sample.fields.take n)) := by
  have hlen : (r.sample.fields.take n).length ≠ 7 := by
    rw [List.length_take]
    omega
  simp only [cpuPerc, StatRead.stat, hn, Option.map_some, if_pos hlen]

theorem cpuPerc_complete {n : Nat} (hn : r.converted = some n) (hle : 7 ≤ n) :
    cpuPerc r.stat b =
      (if b.user = 0 ∨ r.sample.total = b.total then .null
        else
          let percent := (100 * (r.sample.busy - b.busy)).tdiv (r.sample.total - b.total)
          ⟨some percent, bprintf (decimalInt percent)⟩, r.sample) := by
  have hlen : ¬ (r.sample.fields.take n).length ≠ 7 := by
    rw [List.length_take, CpuStat.fields]
    simp only [List.length_cons, List.length_nil]
    omega
  have hflip : (100 * (b.busy - r.sample.busy)).tdiv (b.total - r.sample.total) =
      (100 * (r.sample.busy - b.busy)).tdiv (r.sample.total - b.total) := by
    rw [← tdiv_flip, Int.neg_sub, Int.neg_sub]
  simp only [cpuPerc, StatRead.stat, hn, Option.map_some, if_neg hlen,
    CpuStat.assign_complete _ _ hle]
  by_cases huser : b.user = 0
  · rw [if_pos huser, if_pos (.inl huser)]
  · by_cases htotal : r.sample.total = b.total
    · rw [if_neg huser, if_pos (by omega), if_pos (.inr htotal)]
    · rw [if_neg huser, if_neg (by omega), if_neg (not_or.mpr ⟨huser, htotal⟩), hflip]

theorem cpuLaw_iff (hstored : b = last.getD {}) (hbefore : ∀ old ∈ last, old.Before r.sample) :
    CpuLaw last b r (cpuPerc r.stat b) ↔ CpuSteady b r := by
  cases hn : r.converted with
  | none =>
    have hpart : ¬ r.Complete := by simp [StatRead.Complete, hn]
    rw [CpuSteady, if_neg hpart, hn]
    refine iff_of_true ?_ (by simp)
    rw [StatRead.stat, hn]
    exact cpuLaw_of_null (fun _ => rfl)
  | some n =>
    by_cases hle : 7 ≤ n
    · have hfull : r.Complete := ⟨n, hn, hle⟩
      rw [CpuSteady, if_pos hfull, cpuPerc_complete hn hle]
      by_cases hnull : b.user = 0 ∨ r.sample.total = b.total
      · rw [if_pos hnull, ← or_assoc]
        exact iff_of_true (cpuLaw_of_null (fun h => absurd hfull h)) (.inl hnull)
      · obtain ⟨huser, htotal⟩ := not_or.mp hnull
        obtain ⟨old, rfl⟩ : ∃ old, last = some old := by
          cases last with
          | none => exact absurd (by rw [hstored]; rfl) huser
          | some old => exact ⟨old, rfl⟩
        obtain rfl : b = old := hstored
        have hrange := percent_iff (hbefore b rfl).busy_le (show r.sample.total - b.total ≠ 0 by omega)
        rw [if_neg hnull, or_iff_right huser, or_iff_right htotal, ← hrange]
        constructor
        · intro h
          obtain ⟨old, hold, -, percent, hpercent, h0, h100, -⟩ := h.shown (by simp [Reading.null])
          obtain rfl := Option.some.inj hold
          exact hpercent ▸ ⟨h0, h100⟩
        · intro h
          refine ⟨fun _ => ⟨b, rfl, hfull, _, rfl, h.1, h.2, ?_⟩, fun hpart => absurd hfull hpart⟩
          simp only [decimalInt_fits h.1 h.2]
    · have hpart : ¬ r.Complete := by
        intro h
        obtain ⟨m, hm, hm7⟩ := h
        rw [hn] at hm
        obtain rfl := Option.some.inj hm
        exact hle hm7
      rw [CpuSteady, if_neg hpart, cpuPerc_partial hn (by omega), hn]
      constructor
      · intro h m hm
        obtain rfl := Option.some.inj hm
        exact (CpuStat.assign_take _ _ _).mp (h.kept hpart)
      · intro h
        exact cpuLaw_of_null (fun _ => (CpuStat.assign_take _ _ _).mpr (h n rfl))

theorem stored_next (hstored : b = last.getD {}) (h : CpuLaw last b r (cpuPerc r.stat b)) :
    (cpuPerc r.stat b).2 = (if r.Complete then some r.sample else last).getD {} := by
  by_cases hfull : r.Complete
  · obtain ⟨n, hn, hle⟩ := id hfull
    rw [cpuPerc_complete hn hle, if_pos hfull]
    rfl
  · rw [h.kept hfull, if_neg hfull, hstored]

theorem onReads_law_iff (reads : List StatRead) (hstored : b = last.getD {})
    (hmono : (reads.map StatRead.sample).Pairwise CpuStat.Before)
    (hbefore : ∀ old ∈ last, ∀ r ∈ reads, old.Before r.sample) :
    OnReads (fun last b r => CpuLaw last b r (cpuPerc r.stat b)) last b reads ↔
      OnReads (fun _ b r => CpuSteady b r) last b reads := by
  induction reads generalizing last b with
  | nil => exact Iff.rfl
  | cons r reads ih =>
    rw [List.map_cons, List.pairwise_cons] at hmono
    have hcall := cpuLaw_iff (r := r) hstored (fun old hold => hbefore old hold r List.mem_cons_self)
    rw [OnReads, OnReads, ← hcall]
    refine and_congr_right (fun hlaw => ih (stored_next hstored hlaw) hmono.2 ?_)
    intro old hold r' hr'
    split_ifs at hold with hfull
    · obtain rfl := Option.some.inj hold
      exact hmono.1 r'.sample (List.mem_map_of_mem hr')
    · exact hbefore old hold r' (List.mem_cons_of_mem _ hr')

end Call

/-- Over every run from the start, all readings are shares of the time between two
complete samples, and no failed read changes the stored one, exactly when every call
is steady. -/
theorem cpu_readings_iff (reads : List StatRead)
    (hmono : (reads.map StatRead.sample).Pairwise CpuStat.Before) :
    OnReads (fun last b r => CpuLaw last b r (cpuPerc r.stat b)) none {} reads ↔
      OnReads (fun _ b r => CpuSteady b r) none {} reads :=
  onReads_law_iff reads rfl hmono (fun old hold => by cases hold)

theorem cpu_readings_iff_loaded :
    let reads : List StatRead := [⟨{ user := 100, idle := 900 }, some 7⟩, ⟨{ user := 120, idle := 980 }, none⟩,
      ⟨{ user := 150, idle := 1050 }, some 7⟩]
    OnReads (fun last b r => CpuLaw last b r (cpuPerc r.stat b)) none {} reads ↔
      OnReads (fun _ b r => CpuSteady b r) none {} reads :=
  cpu_readings_iff _ (by decide)

theorem cpu_readings_miss :
    let partly : List StatRead := [⟨{ user := 100, idle := 900 }, some 7⟩,
      ⟨{ user := 200, idle := 1800 }, some 1⟩]
    let falling : List StatRead := [⟨{ user := 100, idle := 900, iowait := 500 }, some 7⟩,
      ⟨{ user := 200, idle := 900, iowait := 450 }, some 7⟩]
    (partly.map StatRead.sample).Pairwise CpuStat.Before ∧
    ¬ OnReads (fun last b r => CpuLaw last b r (cpuPerc r.stat b)) none {} partly ∧
    (falling.map StatRead.sample).Pairwise CpuStat.Before ∧
    ¬ OnReads (fun last b r => CpuLaw last b r (cpuPerc r.stat b)) none {} falling := by
  intro partly falling
  have hpartly : (partly.map StatRead.sample).Pairwise CpuStat.Before := by decide
  have hfalling : (falling.map StatRead.sample).Pairwise CpuStat.Before := by decide
  refine ⟨hpartly, ?_, hfalling, ?_⟩
  · exact mt (@onReads_law_iff none {} partly rfl hpartly (by simp)).mp (by decide)
  · exact mt (@onReads_law_iff none {} falling rfl hfalling (by simp)).mp (by decide)

end Slstatus
