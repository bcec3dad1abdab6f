import Slstatus.Instances

/-! The speed that netspeed.c and `io_perc` show, against the increase of the counter
over the time between two samples of the module. -/

namespace Slstatus

def Outside.sample (f : Func) (args : Option Bytes) (o : Outside) : Option UInt64 :=
  match f with
  | .netspeedRx => counterRead netRxBytes args o.counter
  | .netspeedTx => counterRead netTxBytes args o.counter
  | .ioPerc => o.wait
  | _ => none

def Statics.last (f : Func) (s : Statics) : UInt64 :=
  match f with
  | .netspeedRx => s.rxbytes
  | .netspeedTx => s.txbytes
  | .ioPerc => s.newwait
  | _ => 0

/-- The increase over `interval * k` milliseconds: bytes per second rounded down, or
percent of the time. -/
def rate (f : Func) (interval k : UInt32) (increase : Nat) : ℚ :=
  match f with
  | .ioPerc => 100 * increase / (interval.toNat * k.toNat)
  | _ => (increase * 1000 / (interval.toNat * k.toNat) : Nat)

/-- What a reading has to be when `old` is the last sample before the call and `new`
the one that the call takes. -/
def ReadingLaw (f : Func) (interval k : UInt32) (old new : Option UInt64) (r : Reading) : Prop :=
  r.text ≠ none → ∃ o ∈ old, ∃ n ∈ new, o ≤ n ∧
    r.value = some (rate f interval k (n.toNat - o.toNat))

def Regular (f : Func) (interval k : UInt32) (old new : Option UInt64) : Prop :=
  ∀ o ∈ old, ∀ n ∈ new, o = 0 ∨
    match f with
    | .ioPerc => n ≤ o ∨ k = 1
    | _ => o ≤ n ∧ (k = 1 ∨ (n.toNat - o.toNat) * 1000 < interval.toNat)

def Increases (old new : Option UInt64) : Prop :=
  ∀ o ∈ old, ∀ n ∈ new, o ≤ n → (n.toNat - o.toNat) * 1000 < 2 ^ 64

/-- `P` holds at every call of the log: of the last sample before it, the sample that
it takes and its reading. -/
def OnSamples (f : Func) (args : Option Bytes)
    (P : Option UInt64 → Option UInt64 → Reading → Prop) :
    Option UInt64 → List (Outside × Reading) → Prop
  | _, [] => True
  | old, (o, r) :: log =>
    P old (o.sample f args) r ∧ OnSamples f args P ((o.sample f args).or old) log

theorem div_mul_eq_div_iff {d i k : Nat} (hi : 1 ≤ i) (hk : 1 ≤ k) :
    d / i = d / (i * k) ↔ k = 1 ∨ d < i := by
  rw [← Nat.div_div_eq_div_mul]
  constructor
  · intro h
    by_cases hd : d < i
    · exact .inr hd
    · have hpos : 0 < d / i := Nat.div_pos (Nat.le_of_not_lt hd) hi
      refine .inl ?_
      by_contra hne
      have hlt := Nat.div_lt_self hpos (show 1 < k by omega)
      omega
  · intro hor
    rcases hor with rfl | hd
    · rw [Nat.div_one]
    · rw [Nat.div_eq_of_lt hd, Nat.zero_div]

theorem share_eq_iff {d i k : Nat} (hi : 1 ≤ i) (hk : 1 ≤ k) :
    (100 * d / i : ℚ) = 100 * d / (i * k) ↔ d = 0 ∨ k = 1 := by
  have hi' : (i : ℚ) ≠ 0 := by exact_mod_cast (show i ≠ 0 by omega)
  have hk' : (k : ℚ) ≠ 0 := by exact_mod_cast (show k ≠ 0 by omega)
  constructor
  · intro h
    by_cases hd : d = 0
    · exact .inl hd
    · have hd' : (d : ℚ) ≠ 0 := by exact_mod_cast hd
      refine .inr ?_
      field_simp at h
      exact_mod_cast h
  · intro hor
    rcases hor with rfl | rfl
    · simp
    · simp

theorem speed_toNat {old new : UInt64} {interval : UInt32} (hle : old ≤ new)
    (hbound : (new.toNat - old.toNat) * 1000 < 2 ^ 64) :
    ((new - old) * 1000 / interval.toUInt64).toNat =
      (new.toNat - old.toNat) * 1000 / interval.toNat := by
  rw [UInt64.toNat_div, UInt64.toNat_mul, UInt64.toNat_sub_of_le _ _ hle]
  simp only [UInt32.toNat_toUInt64]
  congr 1
  exact Nat.mod_eq_of_lt hbound

theorem Reading.human_eq_ok {num : UInt64} {r : Reading} (h : Reading.human num = .ok r) :
    r.text ≠ none ∧ r.value = some (num.toNat : ℚ) := by
  simp only [Reading.human] at h
  split at h
  · cases h
  · rename_i text htext
    obtain rfl := Except.ok.inj h
    exact ⟨Option.isSome_iff_ne_none.mp (fmtHuman_isSome htext), rfl⟩

section Call

variable {f : Func} {interval k : UInt32} {prev : Option UInt64} {o n : UInt64} {r : Reading}

theorem readingLaw_of_null {new : Option UInt64} (h : r.text = none) :
    ReadingLaw f interval k prev new r := fun hr => absurd h hr

theorem readingLaw_some (h : r.text ≠ none) :
    ReadingLaw f interval k (some o) (some n) r ↔
      o ≤ n ∧ r.value = some (rate f interval k (n.toNat - o.toNat)) := by
  simp [ReadingLaw, h]

theorem regular_some :
    Regular f interval k (some o) (some n) ↔ o = 0 ∨
      match f with
      | .ioPerc => n ≤ o ∨ k = 1
      | _ => o ≤ n ∧ (k = 1 ∨ (n.toNat - o.toNat) * 1000 < interval.toNat) := by
  constructor
  · intro h
    exact h o rfl n rfl
  · intro h o' ho n' hn
    cases ho
    cases hn
    exact h

theorem toNat_eq_one : k.toNat = 1 ↔ k = 1 := by rw [← UInt32.toNat_inj, UInt32.toNat_one]

theorem netspeed_law {path : Bytes} {interface : Option Bytes} {counter : Option UInt64}
    (hinterval : 1 ≤ interval) (hk : 1 ≤ k)
    (hbound : Increases prev (counterRead path interface counter))
    (h : netspeed path interval interface counter (prev.getD 0) = .ok (r, n)) :
    n = ((counterRead path interface counter).or prev).getD 0 ∧
    (ReadingLaw .netspeedRx interval k prev (counterRead path interface counter) r ↔
      Regular .netspeedRx interval k prev (counterRead path interface counter)) := by
  rcases netspeed_eq_ok h with ⟨hread, rfl, hnew⟩ | ⟨hread, hzero, rfl⟩ | ⟨hread, hzero, hr⟩
  · rw [hread]
    exact ⟨hnew, iff_of_true (readingLaw_of_null rfl) (fun o _ n hn => by cases hn)⟩
  · rw [hread]
    refine ⟨rfl, iff_of_true (readingLaw_of_null rfl) (fun o ho n _ => .inl ?_)⟩
    rwa [Option.mem_def.mp ho] at hzero
  · obtain ⟨old, rfl⟩ : ∃ old, prev = some old := by
      cases prev with
      | none => exact absurd rfl hzero
      | some old => exact ⟨old, rfl⟩
    obtain ⟨htext, hvalue⟩ := Reading.human_eq_ok hr
    have hold : old ≠ 0 := hzero
    have hi : 1 ≤ interval.toNat := UInt32.le_iff_toNat_le.mp hinterval
    have hk' : 1 ≤ k.toNat := UInt32.le_iff_toNat_le.mp hk
    rw [hread, regular_some, readingLaw_some htext, or_iff_right hold]
    refine ⟨rfl, and_congr_right ?_⟩
    intro hle
    have hspeed : ((n - old) * 1000 / interval.toUInt64).toNat =
        (n.toNat - old.toNat) * 1000 / interval.toNat :=
      speed_toNat hle (hbound old rfl n hread hle)
    have hrate : rate .netspeedRx interval k (n.toNat - old.toNat) =
        ((n.toNat - old.toNat) * 1000 / (interval.toNat * k.toNat) : Nat) := rfl
    rw [hvalue, Option.getD_some, hspeed, Option.some.injEq, hrate, Nat.cast_inj,
      div_mul_eq_div_iff hi hk', toNat_eq_one]

theorem Reading.quotient_spec (num : UInt64) (h : 1 ≤ interval) :
    (Reading.quotient num interval).text ≠ none ∧
      (Reading.quotient num interval).value = some (num.toNat / interval.toNat : ℚ) := by
  have hne : interval ≠ 0 := by
    intro he
    subst he
    exact absurd h (by decide)
  have hpos : (1 : ℚ) ≤ interval.toNat := by exact_mod_cast UInt32.le_iff_toNat_le.mp h
  have hnum : (num.toNat : ℚ) ≤ (2 ^ 64 : Nat) := by exact_mod_cast num.toNat_lt.le
  have hlen := fixed1_length_le ((div_le_self (Nat.cast_nonneg _) hpos).trans hnum)
  have hfits : ¬ 1024 ≤ (fixed1 (num.toNat / interval.toNat)).length := by omega
  rw [Reading.quotient, if_neg hne]
  refine ⟨?_, rfl⟩
  rw [bprintf, if_neg hfits]
  exact Option.some_ne_none _

theorem share_toNat (hle : o ≤ n) (hbound : (n.toNat - o.toNat) * 1000 < 2 ^ 64) :
    (100 * (n - o)).toNat = 100 * (n.toNat - o.toNat) := by
  rw [UInt64.toNat_mul, UInt64.toNat_sub_of_le _ _ hle]
  exact Nat.mod_eq_of_lt (by simp only [UInt64.reduceToNat]; omega)

theorem ioPerc_law {wait : Option UInt64} (hinterval : 1 ≤ interval) (hk : 1 ≤ k)
    (hbound : Increases prev wait) :
    (ioPerc interval wait (prev.getD 0)).2 = (wait.or prev).getD 0 ∧
    (ReadingLaw .ioPerc interval k prev wait (ioPerc interval wait (prev.getD 0)).1 ↔
      Regular .ioPerc interval k prev wait) := by
  cases wait with
  | none => exact ⟨rfl, iff_of_true (readingLaw_of_null rfl) (fun o _ n hn => by cases hn)⟩
  | some n =>
  cases prev with
  | none => exact ⟨rfl, iff_of_true (readingLaw_of_null rfl) (fun o ho => by cases ho)⟩
  | some old =>
  have hi : 1 ≤ interval.toNat := UInt32.le_iff_toNat_le.mp hinterval
  have hk' : 1 ≤ k.toNat := UInt32.le_iff_toNat_le.mp hk
  rw [regular_some]
  by_cases hnull : old = 0 ∨ n < old
  · simp only [ioPerc, Option.getD_some, if_pos hnull]
    refine ⟨rfl, iff_of_true (readingLaw_of_null rfl) ?_⟩
    rcases hnull with hzero | hlt
    · exact .inl hzero
    · exact .inr (.inl (UInt64.le_of_lt hlt))
  · obtain ⟨hzero, hlt⟩ := not_or.mp hnull
    have hle : old ≤ n := UInt64.not_lt.mp hlt
    obtain ⟨htext, hvalue⟩ := Reading.quotient_spec (100 * (n - old)) hinterval
    have hshare : (100 * (n - old)).toNat = 100 * (n.toNat - old.toNat) :=
      share_toNat hle (hbound old rfl n rfl hle)
    have hrate : rate .ioPerc interval k (n.toNat - old.toNat) =
        100 * (n.toNat - old.toNat : Nat) / (interval.toNat * k.toNat) := rfl
    simp only [ioPerc, Option.getD_some, if_neg hnull]
    refine ⟨rfl, ?_⟩
    rw [readingLaw_some htext, hvalue, hshare, or_iff_right hzero, and_iff_right hle,
      Option.some.injEq, hrate, Nat.cast_mul, Nat.cast_ofNat, share_eq_iff hi hk',
      Nat.sub_eq_zero_iff_le, ← UInt64.le_iff_toNat_le, toNat_eq_one]

theorem callFunc_law {args : Option Bytes} {x : Outside} {s t : Statics}
    (hf : f = .netspeedRx ∨ f = .netspeedTx ∨ f = .ioPerc) (hinterval : 1 ≤ interval) (hk : 1 ≤ k)
    (hs : s.last f = prev.getD 0) (hbound : Increases prev (x.sample f args))
    (h : callFunc interval f args x s = .ok (r, t)) :
    t.last f = ((x.sample f args).or prev).getD 0 ∧
    (ReadingLaw f interval k prev (x.sample f args) r ↔
      Regular f interval k prev (x.sample f args)) := by
  rcases hf with rfl | rfl | rfl
  · obtain ⟨⟨r', new⟩, hcall, hrt⟩ := map_eq_ok h
    obtain ⟨rfl, rfl⟩ := Prod.mk.inj hrt
    rw [show s.rxbytes = prev.getD 0 from hs] at hcall
    exact netspeed_law hinterval hk hbound hcall
  · obtain ⟨⟨r', new⟩, hcall, hrt⟩ := map_eq_ok h
    obtain ⟨rfl, rfl⟩ := Prod.mk.inj hrt
    rw [show s.txbytes = prev.getD 0 from hs] at hcall
    exact netspeed_law hinterval hk hbound hcall
  · obtain ⟨rfl, rfl⟩ := Prod.mk.inj (Except.ok.inj h)
    simp only [show s.newwait = prev.getD 0 from hs]
    exact ioPerc_law hinterval hk hbound

theorem run_law {args : Option Bytes} {s t : Statics} {log : List (Outside × Reading)}
    (hf : f = .netspeedRx ∨ f = .netspeedTx ∨ f = .ioPerc) (hinterval : 1 ≤ interval) (hk : 1 ≤ k)
    (h : CallLog.Run (callFunc interval f args) s log t) (hs : s.last f = prev.getD 0)
    (hbound : OnSamples f args (fun old new _ => Increases old new) prev log) :
    OnSamples f args (ReadingLaw f interval k) prev log ↔
      OnSamples f args (fun old new _ => Regular f interval k old new) prev log := by
  induction h generalizing prev with
  | nil => exact Iff.rfl
  | cons hcall _ ih =>
    obtain ⟨hlast, hlaw⟩ := callFunc_law hf hinterval hk hs hbound.1 hcall
    exact and_congr hlaw (ih hlast hbound.2)

end Call

-- the instances over `Option` are named: another one tries every number of 64 bits
instance {f : Func} {interval k : UInt32} {old new : Option UInt64} {r : Reading} :
    Decidable (ReadingLaw f interval k old new r) :=
  have : Decidable (∃ o ∈ old, ∃ n ∈ new, o ≤ n ∧
      r.value = some (rate f interval k (n.toNat - o.toNat))) :=
    @Option.decidableExistsMem _ _ (fun _ => Option.decidableExistsMem new) old
  inferInstanceAs (Decidable (_ → _))

instance {old new : Option UInt64} : Decidable (Increases old new) :=
  @Option.decidableForallMem _ _ (fun _ => Option.decidableForallMem new) old

instance decidableOnSamples {f : Func} {args : Option Bytes}
    {P : Option UInt64 → Option UInt64 → Reading → Prop} [∀ old new r, Decidable (P old new r)] :
    ∀ old log, Decidable (OnSamples f args P old log)
  | _, [] => inferInstanceAs (Decidable True)
  | old, (o, r) :: log =>
    have : Decidable (OnSamples f args P ((o.sample f args).or old) log) := decidableOnSamples _ log
    inferInstanceAs (Decidable (P old (o.sample f args) r ∧ _))

end Slstatus
