import Slstatus.BsdMemory
import Slstatus.Lib.CallLog

/-! `cpu_perc` on OpenBSD and on FreeBSD, whose counters have a type without sign and one with. -/

namespace Slstatus

/-- The states of the processor that are read of the array. -/
structure CpTime (α : Type) where
  user : α
  nice : α
  sys : α
  intr : α
  idle : α

namespace CpTime

def map {α β : Type} (f : α → β) (x : CpTime α) : CpTime β :=
  ⟨f x.user, f x.nice, f x.sys, f x.intr, f x.idle⟩

def addBusy (x : CpTime CInt.Val) : Except CInt.Undefined CInt.Val := do
  CInt.add (← CInt.add (← CInt.add x.user x.nice) x.sys) x.intr

def addAll (x : CpTime CInt.Val) : Except CInt.Undefined CInt.Val := do
  CInt.add (← x.addBusy) x.idle

/-- The expression that is assigned to `sum`. -/
def elapsed (a b : CpTime CInt.Val) : Except CInt.Undefined CInt.Val := do
  CInt.sub (← a.addAll) (← b.addAll)

/-- The expression that is printed. -/
def percent (a b : CpTime CInt.Val) (sum : CInt.Val) : Except CInt.Undefined CInt.Val := do
  CInt.div (← CInt.mul (CInt.int 100) (← CInt.sub (← a.addBusy) (← b.addBusy))) sum

def busy (x : CpTime Nat) : Nat := x.user + x.nice + x.sys + x.intr

def total (x : CpTime Nat) : Nat := x.busy + x.idle

/-- What the array holds of the counters. -/
def stored (t : CInt.Ty) (x : CpTime Nat) : CpTime CInt.Val := x.map (fun n : Nat => CInt.of t n)

/-- No counter falls. -/
def Before (old new : CpTime Nat) : Prop :=
  old.user ≤ new.user ∧ old.nice ≤ new.nice ∧ old.sys ≤ new.sys ∧ old.intr ≤ new.intr ∧
    old.idle ≤ new.idle

instance (old new : CpTime Nat) : Decidable (old.Before new) := inferInstanceAs (Decidable (_ ∧ _))

end CpTime

/-- `%d`, which takes the low half of a number of 64 bits. -/
def lowInt (z : Int) : Bytes := decimalInt (CInt.Ty.int.wrap z)

namespace Bsd

/-- The common body; `t` is the type of the counters, and `sample` is `none` where the call for
them fails. -/
def cpuPerc (t : CInt.Ty) (sample : Option (CpTime Nat)) (a : CpTime CInt.Val) :
    Except Fault (Option Bytes × CpTime CInt.Val) :=
  match sample with
  | none => .ok (none, a)
  | some counters =>
    let b := a
    let a := counters.stored t
    if b.user.z = 0 then .ok (none, a)
    else
      match a.elapsed b with
      | .error u => .error (arithFault u)
      | .ok sum =>
        if sum.z = 0 then .ok (none, a)
        else
          match a.percent b sum with
          | .error u => .error (arithFault u)
          | .ok percent => .ok (bprintf (lowInt percent.z), a)

/-- The static array before the first call. -/
def noSample (t : CInt.Ty) : CpTime CInt.Val := CpTime.stored t ⟨0, 0, 0, 0, 0⟩

end Bsd

def OpenBsd.cpuPerc := Bsd.cpuPerc .ulong

def FreeBsd.cpuPerc := Bsd.cpuPerc .long

/-- What is to be shown: of the time since the last call that got the counters, the busy part. -/
def shares : Option (CpTime Nat) → List (Option (CpTime Nat)) → List (Option Bytes)
  | _, [] => []
  | last, none :: polls => none :: shares last polls
  | none, some new :: polls => none :: shares (some new) polls
  | some old, some new :: polls =>
    (if old.user % 2 ^ 64 = 0 ∨ new.total = old.total then none
      else some (decimal (100 * (new.busy - old.busy) / (new.total - old.total)))) ::
      shares (some new) polls

/-- Between two calls no counter falls and the time that passes, in percent, fits the type. One
with sign also has to hold the sums. -/
def Grows (t : CInt.Ty) : Option (CpTime Nat) → List (Option (CpTime Nat)) → Prop
  | _, [] => True
  | last, none :: polls => Grows t last polls
  | last, some new :: polls =>
    (∀ old, last = some old → old.Before new ∧ t.Holds (100 * (new.total - old.total) : Nat)) ∧
      (t.signed = true → t.Holds new.total) ∧ Grows t (some new) polls

section Sample

variable {t : CInt.Ty} {x old new : CpTime Nat}

theorem holds_of_total (h : t.signed = true → t.Holds x.total) {n : Nat} (hn : n ≤ x.total) :
    t.signed = true → t.Holds n :=
  fun hs => CInt.Ty.holds_of_le (h hs) (Int.natCast_nonneg n) (Int.ofNat_le.mpr hn)

theorem add_stored {m n : Nat} (h : t.signed = true → t.Holds (m + n : Nat)) :
    CInt.add (CInt.of t m) (CInt.of t n) = .ok (CInt.of t (m + n : Nat)) := by
  rw [Int.natCast_add]
  refine CInt.add_of (fun hs => ⟨?_, ?_, by exact_mod_cast h hs⟩)
  · exact CInt.Ty.holds_of_le (h hs) (Int.natCast_nonneg m) (by omega)
  · exact CInt.Ty.holds_of_le (h hs) (Int.natCast_nonneg n) (by omega)

theorem addBusy_stored (h : t.signed = true → t.Holds x.total) :
    (x.stored t).addBusy = .ok (CInt.of t x.busy) := by
  have hle : ∀ n, n ≤ x.total → t.signed = true → t.Holds n := fun n hn => holds_of_total h hn
  simp only [CpTime.addBusy, CpTime.stored, CpTime.map]
  rw [add_stored (hle _ (by simp only [CpTime.total, CpTime.busy]; omega)), CInt.ok_bind,
    add_stored (hle _ (by simp only [CpTime.total, CpTime.busy]; omega)), CInt.ok_bind,
    add_stored (hle _ (by simp only [CpTime.total, CpTime.busy]; omega))]
  rfl

theorem addAll_stored (h : t.signed = true → t.Holds x.total) :
    (x.stored t).addAll = .ok (CInt.of t x.total) := by
  rw [CpTime.addAll, addBusy_stored h, CInt.ok_bind]
  exact add_stored h

theorem sub_stored {m n : Nat} (hle : n ≤ m) (h : t.signed = true → t.Holds m) :
    CInt.sub (CInt.of t m) (CInt.of t n) = .ok (CInt.of t (m - n : Nat)) := by
  rw [Int.ofNat_sub hle]
  refine CInt.sub_of (fun hs => ⟨h hs, ?_, ?_⟩)
  · exact CInt.Ty.holds_of_le (h hs) (Int.natCast_nonneg n) (by omega)
  · exact CInt.Ty.holds_of_le (h hs) (by omega) (by omega)

theorem CpTime.Before.busy_le (h : old.Before new) : old.busy ≤ new.busy := by
  obtain ⟨huser, hnice, hsys, hintr, -⟩ := h
  simp only [CpTime.busy]
  omega

/-- The busy time grows no more than all of it. -/
theorem CpTime.Before.growth (h : old.Before new) :
    old.total ≤ new.total ∧ new.busy - old.busy ≤ new.total - old.total := by
  have hbusy := h.busy_le
  obtain ⟨-, -, -, -, hidle⟩ := h
  simp only [CpTime.total]
  omega

theorem CpTime.Before.share_le (h : old.Before new) :
    100 * (new.busy - old.busy) / (new.total - old.total) ≤ 100 :=
  Nat.div_le_of_le_mul ((Nat.mul_le_mul_left 100 h.growth.2).trans_eq (Nat.mul_comm _ _))

end Sample

section Call

variable {t : CInt.Ty} {old new : CpTime Nat}

theorem hundred_stored (ht : t = .long ∨ t = .ulong) {n : Nat} (h : t.Holds (100 * n : Nat)) :
    CInt.mul (CInt.int 100) (CInt.of t n) = .ok (CInt.of t (100 * n : Nat)) := by
  have hn : t.Holds n := CInt.Ty.holds_of_le h (Int.natCast_nonneg n) (by omega)
  have hcommon : CInt.Ty.common .int t = t := by rcases ht with rfl | rfl <;> rfl
  have hhundred : t.Holds 100 := by rcases ht with rfl | rfl <;> decide
  have hwrap : t.wrap (CInt.Ty.int.wrap 100) = t.wrap 100 := by
    rcases ht with rfl | rfl <;> decide
  rw [Int.natCast_mul] at h ⊢
  exact CInt.arith_of (fun k a b => (Int.mul_emod a b k).symm) hcommon hwrap
    (fun _ => ⟨hhundred, hn, h⟩)

theorem div_stored {m n : Nat} (hm : t.Holds m) (hn : t.Holds n) (hpos : 0 < n) :
    CInt.div (CInt.of t m) (CInt.of t n) = .ok (CInt.of t (m / n : Nat)) := by
  have hquot : t.Holds (m / n : Nat) :=
    CInt.Ty.holds_of_le hm (Int.natCast_nonneg _) (Int.ofNat_le.mpr (Nat.div_le_self m n))
  have hself := CInt.common_self t
  have hne : ¬ (n : Int) = 0 := by omega
  rw [CInt.of_eq hm, CInt.of_eq hn, CInt.of_eq hquot, CInt.div_eq (by rwa [hself]) (by rwa [hself]),
    if_neg hne, ← CInt.result_of_holds hquot]
  simp only [hself, Int.natCast_ediv]
  rfl

theorem lowInt_percent {n : Nat} (h : n ≤ 100) : bprintf (lowInt n) = some (decimal n) := by
  have hholds : CInt.Ty.int.Holds n := by
    simp only [CInt.Ty.Holds, CInt.Ty.lo, CInt.Ty.hi]
    omega
  have hlen : (decimal n).length ≤ 3 := decimal_length_le (by omega) (by omega)
  rw [lowInt, CInt.Ty.wrap_of_holds hholds, decimalInt, if_neg (by omega), Int.natAbs_natCast,
    bprintf, if_neg (by omega)]

theorem user_stored (ht : t = .long ∨ t = .ulong) (h : t.signed = true → t.Holds old.total) :
    (CInt.of t old.user).z = 0 ↔ old.user % 2 ^ 64 = 0 := by
  have hle : old.user ≤ old.total := by
    simp only [CpTime.total, CpTime.busy]
    omega
  rcases ht with rfl | rfl
  · have hholds := holds_of_total h hle rfl
    simp only [CInt.of_eq hholds]
    simp only [CInt.Ty.Holds, CInt.Ty.lo, CInt.Ty.hi] at hholds
    omega
  · simp only [CInt.of, CInt.Ty.wrap, CInt.Ty.lo, CInt.Ty.size]
    omega

/-- One call after another that got the counters. -/
theorem cpuPerc_share (ht : t = .long ∨ t = .ulong) (hbefore : old.Before new)
    (hgrowth : t.Holds (100 * (new.total - old.total) : Nat))
    (hold : t.signed = true → t.Holds old.total) (hnew : t.signed = true → t.Holds new.total) :
    Bsd.cpuPerc t (some new) (old.stored t) =
      .ok (if old.user % 2 ^ 64 = 0 ∨ new.total = old.total then none
        else some (decimal (100 * (new.busy - old.busy) / (new.total - old.total))), new.stored t) := by
  obtain ⟨htotal, hbusy⟩ := hbefore.growth
  have hd : t.Holds (new.total - old.total : Nat) :=
    CInt.Ty.holds_of_le hgrowth (Int.natCast_nonneg _) (by omega)
  have hnewbusy := holds_of_total hnew (Nat.le_add_right new.busy new.idle)
  have huser : (old.stored t).user.z = 0 ↔ old.user % 2 ^ 64 = 0 := user_stored ht hold
  have hsum : (new.stored t).elapsed (old.stored t) =
      .ok (CInt.of t (new.total - old.total : Nat)) := by
    rw [CpTime.elapsed, addAll_stored hnew, addAll_stored hold]
    exact sub_stored htotal hnew
  have hpart : t.Holds (100 * (new.busy - old.busy) : Nat) :=
    CInt.Ty.holds_of_le hgrowth (Int.natCast_nonneg _) (by omega)
  have hzero : (CInt.of t (new.total - old.total : Nat)).z = 0 ↔ new.total = old.total := by
    simp only [CInt.of_eq hd]
    omega
  simp only [Bsd.cpuPerc, huser, hsum, hzero]
  by_cases hu : old.user % 2 ^ 64 = 0
  · simp only [hu, if_true, true_or]
  · by_cases heq : new.total = old.total
    · simp only [hu, heq, if_true, if_false, or_true]
    · have hpercent : (new.stored t).percent (old.stored t)
          (CInt.of t (new.total - old.total : Nat)) =
          .ok (CInt.of t (100 * (new.busy - old.busy) / (new.total - old.total) : Nat)) := by
        rw [CpTime.percent, addBusy_stored hnew, addBusy_stored hold]
        simp only [CInt.ok_bind, sub_stored hbefore.busy_le hnewbusy, hundred_stored ht hpart]
        exact div_stored hpart hd (by omega)
      have hle := hbefore.share_le
      have hshown : t.Holds (100 * (new.busy - old.busy) / (new.total - old.total) : Nat) :=
        CInt.Ty.holds_of_le hpart (Int.natCast_nonneg _) (Int.ofNat_le.mpr (Nat.div_le_self _ _))
      simp only [hu, heq, hpercent, CInt.of_eq hshown, lowInt_percent hle, if_false, or_self]

theorem cpuPerc_first (ht : t = .long ∨ t = .ulong) :
    Bsd.cpuPerc t (some new) (Bsd.noSample t) = .ok (none, new.stored t) := by
  rcases ht with rfl | rfl <;> rfl

/-- The array is that of the last call which got the counters. -/
theorem replay_shares (ht : t = .long ∨ t = .ulong) (polls : List (Option (CpTime Nat)))
    (last : Option (CpTime Nat)) (h : Grows t last polls)
    (hlast : ∀ old, last = some old → t.signed = true → t.Holds old.total) :
    CallLog.replay (Bsd.cpuPerc t) polls ((last.map (CpTime.stored t)).getD (Bsd.noSample t)) =
      shares last polls := by
  induction polls generalizing last with
  | nil => rfl
  | cons poll polls ih =>
    cases poll with
    | none =>
      rw [CallLog.replay_cons rfl, ih last h hlast]
      cases last <;> rfl
    | some new =>
      obtain ⟨hgrows, hnew, hrest⟩ := h
      have hnext := ih (some new) hrest (fun x hx => Option.some.inj hx ▸ hnew)
      rw [Option.map_some, Option.getD_some] at hnext
      cases last with
      | none => rw [Option.map_none, Option.getD_none, CallLog.replay_cons (cpuPerc_first ht), hnext, shares]
      | some old =>
        obtain ⟨hbefore, hgrowth⟩ := hgrows old rfl
        rw [Option.map_some, Option.getD_some,
          CallLog.replay_cons (cpuPerc_share ht hbefore hgrowth (hlast old rfl) hnew), hnext, shares]

theorem shares_percent (polls : List (Option (CpTime Nat))) (last : Option (CpTime Nat))
    (h : Grows t last polls) {text : Bytes} (htext : some text ∈ shares last polls) :
    ∃ n ≤ 100, text = decimal n := by
  induction polls generalizing last with
  | nil => cases htext
  | cons poll polls ih =>
    cases poll with
    | none =>
      rw [shares] at htext
      exact ih last h ((List.mem_cons.mp htext).resolve_left nofun)
    | some new =>
      obtain ⟨hgrows, -, hrest⟩ := h
      cases last with
      | none =>
        rw [shares] at htext
        exact ih (some new) hrest ((List.mem_cons.mp htext).resolve_left nofun)
      | some old =>
        rw [shares] at htext
        rcases List.mem_cons.mp htext with heq | hmem
        · split_ifs at heq
          exact ⟨_, (hgrows old rfl).1.share_le, Option.some.inj heq⟩
        · exact ih (some new) hrest hmem

end Call

/-- Over every run of calls, with any failures, and past every wrap of the counters: OpenBSD shows
the busy share, rounded down, of the time since the last call that got the counters, and FreeBSD
the same as long as a long holds the sums. It is between 0 and 100. -/
theorem cpuPerc_bsd_shares {polls : List (Option (CpTime Nat))} (h : Grows .ulong none polls) :
    CallLog.replay OpenBsd.cpuPerc polls (Bsd.noSample .ulong) = shares none polls ∧
    (Grows .long none polls →
      CallLog.replay FreeBsd.cpuPerc polls (Bsd.noSample .long) = shares none polls) ∧
    ∀ text, some text ∈ shares none polls → ∃ n ≤ 100, text = decimal n :=
  ⟨replay_shares (.inr rfl) polls none h nofun,
    fun h' => replay_shares (.inl rfl) polls none h' nofun,
    fun _ htext => shares_percent polls none h htext⟩

/-- The counter of the user's time wraps around between the calls. -/
theorem cpuPerc_bsd_shares_wrap :
    CallLog.replay OpenBsd.cpuPerc
      [some ⟨2 ^ 64 - 10, 0, 0, 0, 0⟩, none, some ⟨2 ^ 64 + 20, 0, 0, 0, 10⟩] (Bsd.noSample .ulong) =
      [none, none, some (decimal 75)] := by
  have hgrows : Grows .ulong none
      [some ⟨2 ^ 64 - 10, 0, 0, 0, 0⟩, none, some ⟨2 ^ 64 + 20, 0, 0, 0, 10⟩] := by
    refine ⟨nofun, nofun, ?_, nofun, trivial⟩
    intro old hold
    obtain rfl := Option.some.inj hold
    exact ⟨by decide, by decide⟩
  exact (cpuPerc_bsd_shares hgrows).1.trans (by decide)

end Slstatus
