import Slstatus.Lib.CallLog
import Slstatus.Run

/-! The calls that one module makes in a run of the update loop. Its results follow
from its own inputs as long as no other module samples through the same function. -/

namespace Slstatus

section Calls

variable {ι σ ρ : Type} (K : Components ι σ ρ)

def callAt (table : List Arg) (a : Nat × ι) (s : σ) : Except Fault (ρ × σ) :=
  match table[a.1]? with
  | none => .error .outOfBounds
  | some m =>
    match m.func with
    | none => .error .nullPointer
    | some func => K.call func m.args a.2 s

def polls (events : List (Event ι ρ)) : List ((Nat × ι) × ρ) :=
  events.filterMap (fun | .poll i x r => some ((i, x), r) | .dispatch .. => none)

theorem polls_append (events events' : List (Event ι ρ)) :
    polls (events ++ events') = polls events ++ polls events' := List.filterMap_append

theorem mem_polls {events : List (Event ι ρ)} {i : Nat} {x : ι} {r : ρ} :
    ((i, x), r) ∈ polls events ↔ .poll i x r ∈ events := by
  rw [polls, List.mem_filterMap]
  constructor
  · intro hex
    obtain ⟨e, he, hp⟩ := hex
    cases e with
    | dispatch j argv => cases hp
    | poll j y q =>
      cases hp
      exact he
  · intro he
    exact ⟨_, he, rfl⟩

variable {K} {size : Nat} {unknownString : Option Bytes} {loopCount : UInt32} {input : Nat → ι}

variable (K size unknownString) in
theorem updateModule_calls {table : List Arg} {k : Nat} {m : Arg} (hm : table[k]? = some m)
    (x : ι) (s : σ) :
    CallLog.Run (callAt K table) s (polls (updateModule K size unknownString k m x s).1)
      (updateModule K size unknownString k m x s).2.2 := by
  rcases updateModule_cases K size unknownString k m x s with ⟨f, h⟩ | ⟨func, r, t, hfunc, hc, hsent⟩
  · rw [h]
    exact .nil s
  · have hcall : callAt K table (k, x) s = .ok (r, t) := by simp only [callAt, hm, hfunc, hc]
    rcases hsent with ⟨e, -, h⟩ | ⟨argv, -, h⟩
    · rw [h]
      exact .cons hcall (.nil t)
    · rw [h]
      exact .cons hcall (.nil t)

theorem drop_eq_cons {table ms : List Arg} {k : Nat} {m : Arg} (h : table.drop k = m :: ms) :
    table[k]? = some m ∧ table.drop (k + 1) = ms := by
  constructor
  · rw [← List.head?_drop, h, List.head?_cons]
  · rw [← List.tail_drop, h, List.tail_cons]

theorem moduleLoop_calls {table : List Arg} (ms : List Arg) (k : Nat) (s : σ)
    (htable : table.drop k = ms) :
    CallLog.Run (callAt K table) s
      (polls (moduleLoop K size unknownString loopCount input k ms s).1)
      (moduleLoop K size unknownString loopCount input k ms s).2.2 := by
  induction ms generalizing k s with
  | nil => exact .nil s
  | cons m ms ih =>
    obtain ⟨hm, hdrop⟩ := drop_eq_cons htable
    have hrest := fun s => ih (k + 1) s hdrop
    by_cases hzero : m.updateInterval = 0
    · rw [moduleLoop_zero hzero]
      exact .nil s
    · by_cases hdue : loopCount % m.updateInterval = 0
      · have hcalls := updateModule_calls K size unknownString hm (input k) s
        cases hbody : updateModule K size unknownString k m (input k) s with
        | mk events out =>
        obtain ⟨e, t⟩ := out
        rw [hbody] at hcalls
        cases e with
        | some e =>
          rw [moduleLoop_stop hzero hdue hbody]
          exact hcalls
        | none =>
          rw [moduleLoop_next hzero hdue hbody, polls_append]
          exact hcalls.append (hrest t)
      · rw [moduleLoop_skip hzero hdue]
        exact hrest s

end Calls

theorem runMain_calls {c : Config} {table : List Arg} (htable : c.table = .ok table)
    (env : Nat → Nat → Outside) (n : Nat) :
    CallLog.Run (callAt (live c.interval) table) {} (polls (runMain c env n).log)
      (runMain c env n).statics := by
  induction n with
  | zero => exact .nil _
  | succ n ih =>
    cases hfault : (runMain c env n).fault with
    | some f =>
      simp only [runMain, iteration, hfault]
      exact ih
    | none =>
      simp only [runMain, iteration, hfault, polls_append]
      by_cases hsize : c.maximumStatusLength < 1
      · simp only [mainTick, if_pos hsize]
        exact ih.append (.nil _)
      · simp only [mainTick, if_neg hsize, htable]
        exact ih.append (moduleLoop_calls table 0 _ List.drop_zero)

/-- The static variable of one function, the others at their initial value. -/
def Statics.only (f : Func) (s : Statics) : Statics :=
  match f with
  | .netspeedRx => { rxbytes := s.rxbytes }
  | .netspeedTx => { txbytes := s.txbytes }
  | .ioIn => { newin := s.newin }
  | .ioOut => { newout := s.newout }
  | .ioPerc => { newwait := s.newwait }
  | .cpuPerc => { a := s.a }
  | _ => {}

def Outside.samples (f : Func) (args : Option Bytes) (o : Outside) : Bool :=
  match f with
  | .netspeedRx => (counterRead netRxBytes args o.counter).isSome
  | .netspeedTx => (counterRead netTxBytes args o.counter).isSome
  | .ioIn | .ioOut => o.io.stored.isSome
  | .ioPerc => o.wait.isSome
  | .cpuPerc => o.stat.any (! ·.isEmpty)
  | _ => false

section Own

variable {interval : UInt32} {f g : Func} {args : Option Bytes} {o : Outside} {r : Reading}
  {s t : Statics}

theorem map_eq_ok {α β : Type} {x : Except Fault α} {h : α → β} {b : β}
    (hx : x.map h = .ok b) : ∃ a, x = .ok a ∧ h a = b := by
  cases x with
  | ok a => exact ⟨a, rfl, Except.ok.inj hx⟩
  | error e => cases hx

theorem callFunc_only (h : callFunc interval f args o s = .ok (r, t)) :
    callFunc interval f args o (s.only f) = .ok (r, t.only f) := by
  cases f
  case netspeedRx | netspeedTx | ioIn | ioOut =>
    obtain ⟨a, ha, hrt⟩ := map_eq_ok h
    obtain ⟨rfl, rfl⟩ := Prod.mk.inj hrt
    simp only [callFunc, Statics.only, ha, Except.map]
  case ioPerc | cpuPerc =>
    obtain ⟨rfl, rfl⟩ := Prod.mk.inj (Except.ok.inj h)
    rfl
  all_goals
    simp only [callFunc] at h ⊢
    split at h
    · cases h
    · obtain ⟨rfl, rfl⟩ := Prod.mk.inj (Except.ok.inj h)
      simp_all [Statics.only]

theorem callFunc_other (hfg : g ≠ f) (h : callFunc interval g args o s = .ok (r, t)) :
    t.only f = s.only f := by
  cases g
  case netspeedRx | netspeedTx | ioIn | ioOut =>
    obtain ⟨a, -, hrt⟩ := map_eq_ok h
    obtain ⟨-, rfl⟩ := Prod.mk.inj hrt
    cases f <;> first | rfl | exact absurd rfl hfg
  case ioPerc | cpuPerc =>
    obtain ⟨-, rfl⟩ := Prod.mk.inj (Except.ok.inj h)
    cases f <;> first | rfl | exact absurd rfl hfg
  all_goals
    simp only [callFunc] at h
    split at h
    · cases h
    · obtain ⟨-, rfl⟩ := Prod.mk.inj (Except.ok.inj h)
      rfl

theorem netspeed_unread {path : Bytes} {counter : Option UInt64} {old : UInt64}
    {out : Reading × UInt64} (hunread : counterRead path args counter = none)
    (h : netspeed path interval args counter old = .ok out) : out.2 = old := by
  rcases netspeed_eq_ok h with ⟨-, -, hnew⟩ | ⟨hread, -⟩ | ⟨hread, -⟩
  · exact hnew
  · simp [hunread] at hread
  · simp [hunread] at hread

theorem ioCounter_unread {io : GetIo} {old : UInt64} {out : Reading × UInt64}
    (hio : io.stored = none) (h : ioCounter io old = .ok out) : out.2 = old := by
  simp only [ioCounter, hio, Option.getD_none] at h
  split_ifs at h
  · exact (congrArg Prod.snd (Except.ok.inj h)).symm
  · exact (congrArg Prod.snd (Except.ok.inj h)).symm
  · obtain ⟨a, -, ha⟩ := map_eq_ok h
    exact (congrArg Prod.snd ha).symm

theorem cpuPerc_unread {stat : Option (List Int)} {b : CpuStat}
    (h : stat.any (! ·.isEmpty) = false) : (cpuPerc stat b).2 = b := by
  cases stat with
  | none => rfl
  | some fields =>
    cases fields with
    | nil => rfl
    | cons z zs => simp at h

theorem callFunc_unread (ho : o.samples f args = false)
    (h : callFunc interval f args o s = .ok (r, t)) : t = s := by
  cases f
  case netspeedRx | netspeedTx =>
    obtain ⟨a, ha, hrt⟩ := map_eq_ok h
    rw [← (Prod.mk.inj hrt).2, netspeed_unread (by simpa [Outside.samples] using ho) ha]
  case ioIn | ioOut =>
    have hnone : o.io.stored = none := by simpa [Outside.samples] using ho
    obtain ⟨a, ha, hrt⟩ := map_eq_ok h
    rw [← (Prod.mk.inj hrt).2, ioCounter_unread hnone ha]
  case ioPerc =>
    have hnone : o.wait = none := by simpa [Outside.samples] using ho
    have ht := (Prod.mk.inj (Except.ok.inj h)).2
    rw [hnone] at ht
    exact ht.symm
  case cpuPerc =>
    rw [← (Prod.mk.inj (Except.ok.inj h)).2, cpuPerc_unread ho]
  all_goals
    simp only [callFunc] at h
    split at h
    · cases h
    · exact (Prod.mk.inj (Except.ok.inj h)).2.symm

end Own

def instanceLog (i : Nat) (events : List (Event Outside Reading)) : List (Outside × Reading) :=
  CallLog.project (fun a => if a.1 = i then some a.2 else none) (polls events)

def SamplesAlone (table : List Arg) (i : Nat) (f : Func)
    (events : List (Event Outside Reading)) : Prop :=
  ∀ j x r, ((j, x), r) ∈ polls events → j ≠ i →
    ∀ m, table[j]? = some m → m.func = some f → x.samples f m.args = false

theorem callAt_eq_ok {interval : UInt32} {table : List Arg} {a : Nat × Outside} {s t : Statics}
    {r : Reading} (h : callAt (live interval) table a s = .ok (r, t)) :
    ∃ m f, table[a.1]? = some m ∧ m.func = some f ∧
      callFunc interval f m.args a.2 s = .ok (r, t) := by
  simp only [callAt] at h
  split at h
  · cases h
  · split at h
    · cases h
    · rename_i m hm _ f hf
      exact ⟨m, f, hm, hf, h⟩

theorem instance_run {c : Config} {table : List Arg} {i : Nat} {m : Arg} {f : Func}
    (htable : c.table = .ok table) (hm : table[i]? = some m) (hf : m.func = some f)
    (env : Nat → Nat → Outside) (n : Nat)
    (halone : SamplesAlone table i f (runMain c env n).log) :
    CallLog.Run (callFunc c.interval f m.args) {} (instanceLog i (runMain c env n).log)
      ((runMain c env n).statics.only f) := by
  have hstart : Statics.only f {} = {} := by cases f <;> rfl
  rw [← hstart]
  refine (runMain_calls htable env n).project ?_ ?_
  · intro a b r s t hown hcall
    obtain ⟨m', g, hm', hg, hfunc⟩ := callAt_eq_ok hcall
    split_ifs at hown with hi
    obtain rfl : a.2 = b := Option.some.inj hown
    rw [hi, hm] at hm'
    obtain rfl : m = m' := Option.some.inj hm'
    obtain rfl : f = g := Option.some.inj (hf.symm.trans hg)
    exact callFunc_only hfunc
  · intro a r s t hmem hown hcall
    obtain ⟨m', g, hm', hg, hfunc⟩ := callAt_eq_ok hcall
    split_ifs at hown with hi
    by_cases hgf : g = f
    · subst hgf
      rw [callFunc_unread (halone a.1 a.2 r hmem hi m' hm' hg) hfunc]
    · exact callFunc_other hgf hfunc

def rxConfig (updateInterval : UInt32) (interfaces : List Bytes) : Config where
  numModules := interfaces.length
  modules := some (interfaces.map
    (fun name => ⟨some .netspeedRx, some (lit "%s"), some name, some (lit "1"), updateInterval⟩))

end Slstatus
