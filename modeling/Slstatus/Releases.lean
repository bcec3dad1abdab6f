import Slstatus.OpenDevices

/-! Runs of calls of the functions that open something, in any order and whatever they find. -/

namespace Slstatus

open Alloc

inductive OpenCall
  | pscanf (vfscanf : Bytes → Int) (file : Option Bytes)
  | getSwapInfo (sTotal sFree sCached : Bool) (meminfo : Option File)
  | getIo (sIn sOut : Bool) (vmstat : Option File)
  | ram (keys : List Bytes) (meminfo : Option File)
  | ioPerc (interval : UInt32) (sys : Option SysBlock) (oldwait : UInt64)
  | cat (file : Option Bytes) (fcloseFails : Bool) (buf : Buf)
  | runCommand (output : Option Bytes) (pcloseFails : Bool) (buf : Buf)
  | numFiles (dir : Option (List Bytes))
  | ip (interface : Bytes) (saFamily : UInt16) (ifaddr : Option (List IfAddr))
  | up (interface : Bytes) (ifaddr : Option (List IfAddr))
  | netspeed (ifiBytes : IfData → UInt64) (interval : UInt32) (interface : Bytes)
      (ifal : Option (List IfAddr)) (old : UInt64)
  | keyboardIndicators (ledMask : Option UInt64) (fmt : Option Bytes)
  | keymap (x : XkbServer)
  | ossVolPerc (vnames : List Bytes) (card : Option OssMixer)
  | getstats (swapctl : OpenBsd.Swapctl)
  | loadApmPowerInfo (dev : Option (Option Unit))
  | backlightPerc (dev : Option (Option OpenBsd.WsDisplay))
  | loadIeee80211Nodereq (socket : Option OpenBsd.Ieee80211)
  | getswapinfo (kvm : Option (Option FreeBsd.KvmSwap))

/-- Only whether the call faults matters to the calls that follow. -/
def ends {ε α : Type} (fault : ε → Fault) : Except ε α → Except Fault Unit
  | .error e => .error (fault e)
  | .ok _ => .ok ()

namespace OpenCall

def prog : OpenCall → Prog Handle (Except Fault Unit)
  | .pscanf vfscanf file => (fun _ => .ok ()) <$> pscanfMem vfscanf file
  | .getSwapInfo sTotal sFree sCached meminfo =>
    ends id <$> getSwapInfoMem sTotal sFree sCached meminfo
  | .getIo sIn sOut vmstat => ends id <$> getIoMem sIn sOut vmstat
  | .ram keys meminfo => (fun _ => .ok ()) <$> ramMem keys meminfo
  | .ioPerc interval sys oldwait => ends id <$> ioPercMem interval sys oldwait
  | .cat file fcloseFails buf => ends id <$> catMem file fcloseFails buf
  | .runCommand output pcloseFails buf => ends id <$> runCommandMem output pcloseFails buf
  | .numFiles dir => ends id <$> numFilesMem dir
  | .ip interface saFamily ifaddr => (fun _ => .ok ()) <$> ipMem interface saFamily ifaddr
  | .up interface ifaddr => (fun _ => .ok ()) <$> upMem interface ifaddr
  | .netspeed ifiBytes interval interface ifal old =>
    ends id <$> Bsd.netspeedMem ifiBytes interval interface ifal old
  | .keyboardIndicators ledMask fmt => ends id <$> keyboardIndicatorsMem ledMask fmt
  | .keymap x => ends id <$> keymapMem x
  | .ossVolPerc vnames card => (fun _ => .ok ()) <$> Slstatus.ossVolPerc vnames card
  | .getstats swapctl => ends arithFault <$> OpenBsd.getstatsMem swapctl
  | .loadApmPowerInfo dev => (fun _ => .ok ()) <$> OpenBsd.loadApmPowerInfo dev
  | .backlightPerc dev => ends id <$> OpenBsd.backlightPercMem dev
  | .loadIeee80211Nodereq socket => (fun _ => .ok ()) <$> OpenBsd.loadIeee80211Nodereq socket
  | .getswapinfo kvm => (fun _ => .ok ()) <$> FreeBsd.getswapinfo kvm

/-- How the call ends by the model that opens nothing. -/
def outcome : OpenCall → Except Fault Unit
  | .getSwapInfo sTotal sFree sCached meminfo => ends id (Slstatus.getSwapInfo sTotal sFree sCached meminfo)
  | .getIo sIn sOut vmstat => ends id (Slstatus.getIo sIn sOut vmstat)
  | .ioPerc interval sys oldwait => ends id (ioPercCall interval sys oldwait)
  | .cat file fcloseFails buf => ends id (Slstatus.cat file fcloseFails buf)
  | .runCommand output pcloseFails buf => ends id (Slstatus.runCommand output pcloseFails buf)
  | .numFiles dir => ends id (Slstatus.numFiles dir)
  | .netspeed ifiBytes interval interface ifal old =>
    ends id (Bsd.netspeed ifiBytes interval interface ifal old)
  | .keyboardIndicators ledMask fmt => ends id (Slstatus.keyboardIndicators ledMask fmt)
  | .keymap x => ends id (Slstatus.keymap x)
  | .getstats swapctl => ends arithFault (OpenBsd.getstats swapctl)
  | .backlightPerc dev => ends id (OpenBsd.backlightPerc dev)
  | _ => .ok ()

/-- What the call opens and never closes. -/
def leaks : OpenCall → Multiset Handle
  | .getSwapInfo sTotal sFree sCached meminfo =>
    infoLeaks toLong (swapEnts sTotal sFree sCached) meminfo
  | .getIo sIn sOut vmstat => infoLeaks toUintmax (ioEnts sIn sOut) vmstat
  | .getstats swapctl => OpenBsd.getstatsLeaks swapctl
  | .backlightPerc dev => if dev.isSome then {.device} else 0
  | _ => 0

/-- `up` has something to show. -/
def readsFreed : OpenCall → Bool
  | .up interface ifaddr => (Slstatus.up interface ifaddr).isSome
  | _ => false

end OpenCall

def runCalls : List OpenCall → Prog Handle (Except Fault Unit)
  | [] => return .ok ()
  | c :: cs => do
    match ← c.prog with
    | .error f => return .error f
    | .ok () => runCalls cs

def outcomes : List OpenCall → Except Fault Unit
  | [] => .ok ()
  | c :: cs =>
    match c.outcome with
    | .error f => .error f
    | .ok () => outcomes cs

/-- The run gets to a call that reads what it has freed. -/
def readsFreed : List OpenCall → Bool
  | [] => false
  | c :: cs => c.readsFreed || (decide (c.outcome = .ok ()) && readsFreed cs)

section Runs

variable {ε β : Type}

theorem ends_triple {fault : ε → Fault} {result : Except ε β} {leaks : Multiset Handle}
    {prog : Prog Handle (Except ε β)} (h : Triple 0 prog (Leaves result leaks)) :
    Triple 0 (ends fault <$> prog) (Leaves (ends fault result) leaks) := by
  apply h.map
  rintro out own ⟨rfl, hleft⟩
  refine ⟨rfl, fun _ hend => ?_⟩
  cases out with
  | error e => cases hend
  | ok b => exact hleft b rfl

theorem closes_triple {prog : Prog Handle β} (h : Triple 0 prog (fun _ own => own = 0)) :
    Triple 0 ((fun _ => (.ok () : Except Fault Unit)) <$> prog) (Leaves (.ok ()) 0) := by
  apply h.map
  rintro out own rfl
  exact ⟨rfl, fun _ _ => rfl⟩

theorem returns_triple {prog : Prog Handle β} {post : β → Prop}
    (h : Triple 0 prog (fun out own => post out ∧ own = 0)) :
    Triple 0 ((fun _ => (.ok () : Except Fault Unit)) <$> prog) (Leaves (.ok ()) 0) :=
  closes_triple (h.mono fun _ _ hpost => hpost.2)

theorem OpenCall.triple {c : OpenCall} (h : c.readsFreed = false) :
    Triple 0 c.prog (Leaves c.outcome c.leaks) := by
  cases c with
  | pscanf vfscanf file => exact returns_triple (pscanfMem_triple vfscanf file)
  | getSwapInfo sTotal sFree sCached meminfo => exact ends_triple (getInfoMem_triple meminfo)
  | getIo sIn sOut vmstat => exact ends_triple (getInfoMem_triple vmstat)
  | ram keys meminfo => exact returns_triple (ramMem_triple keys meminfo)
  | ioPerc interval sys oldwait => exact ends_triple (ioPercMem_triple interval sys oldwait)
  | cat file fcloseFails buf => exact ends_triple (firstLineMem_triple .file file fcloseFails buf)
  | runCommand output pcloseFails buf =>
    exact ends_triple (firstLineMem_triple .pipe output pcloseFails buf)
  | numFiles dir => exact ends_triple (numFilesMem_triple dir)
  | ip interface saFamily ifaddr => exact returns_triple (ipMem_triple interface saFamily ifaddr)
  | up interface ifaddr =>
    exact returns_triple (upMem_triple (Option.not_isSome_iff_eq_none.mp (Bool.eq_false_iff.mp h)))
  | netspeed ifiBytes interval interface ifal old =>
    exact ends_triple (netspeedMem_triple ifiBytes interval interface ifal old)
  | keyboardIndicators ledMask fmt => exact ends_triple (keyboardIndicatorsMem_triple ledMask fmt)
  | keymap x => exact ends_triple (keymapMem_triple x)
  | ossVolPerc vnames card =>
    exact closes_triple (ossVolPerc_triple vnames card)
  | getstats swapctl => exact ends_triple (getstatsMem_triple swapctl)
  | loadApmPowerInfo dev => exact returns_triple (askOnce_triple .device dev)
  | backlightPerc dev => exact ends_triple (backlightPercMem_triple dev)
  | loadIeee80211Nodereq socket =>
    exact closes_triple (loadIeee80211Nodereq_triple socket)
  | getswapinfo kvm => exact returns_triple (askOnce_triple .kvm kvm)

theorem OpenCall.misuses {c : OpenCall} (h : c.readsFreed = true) : Misuses 0 c.prog .badAccess := by
  cases c with
  | up interface ifaddr =>
    obtain ⟨text, htext⟩ := Option.isSome_iff_exists.mp h
    rw [OpenCall.prog, map_eq_pure_bind]
    exact (upMem_misuses htext).bind
  | _ => cases h

/-- The induction is over the calls; what earlier ones have left open is not looked at again. -/
theorem runCalls_triple {calls : List OpenCall} (h : readsFreed calls = false) :
    Triple 0 (runCalls calls) (Leaves (outcomes calls) (calls.map OpenCall.leaks).sum) := by
  induction calls with
  | nil => exact .pure ⟨rfl, fun _ _ => rfl⟩
  | cons c cs ih =>
    obtain ⟨hc, hcs⟩ := Bool.or_eq_false_iff.mp h
    apply (OpenCall.triple hc).bind
    rintro out own ⟨rfl, hleft⟩
    cases hend : c.outcome with
    | error f =>
      simp only [outcomes, hend]
      exact .pure ⟨rfl, by simp⟩
    | ok u =>
      have hrest : readsFreed cs = false := by simpa [hend] using hcs
      simp only [outcomes, hend]
      rw [← zero_add own]
      apply ((ih hrest).frame own).mono
      rintro out _ ⟨own', ⟨rfl, hleft'⟩, rfl⟩
      refine ⟨rfl, fun b hb => ?_⟩
      rw [Multiset.map_add, hleft' b hb, hleft u hend, List.map_cons, List.sum_cons, add_comm]

theorem runCalls_misuses {calls : List OpenCall} (h : readsFreed calls = true) :
    Misuses 0 (runCalls calls) .badAccess := by
  induction calls with
  | nil => cases h
  | cons c cs ih =>
    cases hc : c.readsFreed with
    | true => exact (OpenCall.misuses hc).bind
    | false =>
      obtain ⟨hend, hcs⟩ : c.outcome = .ok () ∧ readsFreed cs = true := by
        simpa [readsFreed, hc] using h
      apply (OpenCall.triple hc).misuses
      rintro out own ⟨rfl, -⟩
      simp only [hend]
      rw [← zero_add own]
      exact (ih hcs).frame own

end Runs

end Slstatus
