import Slstatus.BsdMemory
import Slstatus.IfAddrs
import Slstatus.OpenFiles

/-! What the other components open: lists of addresses, the display and devices. `up` reads the
list that it has freed, and on OpenBSD the device of the backlight is never closed. -/

namespace Slstatus

open Alloc

def ipLoopMem (ifaddr : Nat) (interface : Bytes) (saFamily : UInt16) : List IfAddr →
    Prog Handle (Option Bytes)
  | [] => do
    free (some ifaddr)
    return none
  | ifa :: rest => do
    let _ ← load ifaddr
    match ifa.ifaAddr with
    | none => ipLoopMem ifaddr interface saFamily rest
    | some addr =>
      if ifa.ifaName ≠ interface ∨ addr.family ≠ saFamily then
        ipLoopMem ifaddr interface saFamily rest
      else do
        free (some ifaddr)
        match addr.host with
        | none => return none
        | some host => return bprintf host

def ipMem (interface : Bytes) (saFamily : UInt16) (ifaddr : Option (List IfAddr)) :
    Prog Handle (Option Bytes) :=
  match ifaddr with
  | none => return none
  | some ifal => do
    let ifaddr ← malloc .addrs
    ipLoopMem ifaddr interface saFamily ifal

def upLoopMem (ifaddr : Nat) (interface : Bytes) : List IfAddr → Prog Handle (Option Bytes)
  | [] => do
    free (some ifaddr)
    return none
  | ifa :: rest => do
    let _ ← load ifaddr
    match ifa.ifaAddr with
    | none => upLoopMem ifaddr interface rest
    | some _ =>
      if ifa.ifaName = interface then do
        free (some ifaddr)
        -- `ifa` is an element of the list that has just been freed
        let _ ← load ifaddr
        return some (if ifa.ifaFlags &&& 1 ≠ 0 then lit "up" else lit "down")
      else upLoopMem ifaddr interface rest

def upMem (interface : Bytes) (ifaddr : Option (List IfAddr)) : Prog Handle (Option Bytes) :=
  match ifaddr with
  | none => return none
  | some ifal => do
    let ifaddr ← malloc .addrs
    upLoopMem ifaddr interface ifal

namespace Bsd

variable (ifiBytes : IfData → UInt64) (interval : UInt32) (interface : Bytes)

def addBytesMem (ifal : Nat) : List IfAddr → UInt64 → Bool → Prog Handle (UInt64 × Bool)
  | [], bytes, ifOk => return (bytes, ifOk)
  | ifa :: rest, bytes, ifOk => do
    let _ ← load ifal
    if ifa.ifaName = interface then
      match ifa.ifaData with
      | none => addBytesMem ifal rest bytes ifOk
      | some ifd => addBytesMem ifal rest (bytes + ifiBytes ifd) true
    else addBytesMem ifal rest bytes ifOk

def netspeedMem (ifal : Option (List IfAddr)) (old : UInt64) :
    Prog Handle (Except Fault (Reading × UInt64)) :=
  match ifal with
  | none => return .ok (.null, old)
  | some list => do
    let ifal ← malloc .addrs
    let (bytes, ifOk) ← addBytesMem ifiBytes interface ifal list 0 false
    free (some ifal)
    if !ifOk then return .ok (.null, bytes)
    else if old = 0 then return .ok (.null, bytes)
    else if interval = 0 then return .error .divByZero
    else return (Reading.human ((bytes - old) * 1000 / interval.toUInt64)).map (·, bytes)

end Bsd

def keyboardIndicatorsMem (ledMask : Option UInt64) (fmt : Option Bytes) :
    Prog Handle (Except Fault (Option Bytes)) :=
  match ledMask with
  | none => return .ok none
  | some ledMask => do
    let dpy ← malloc .display
    let _ ← load dpy
    free (some dpy)
    return keyboardIndicators (some ledMask) fmt

/-- What the X server and libX11 answer `keymap`, with `none` and `false` where they fail. -/
structure XkbServer where
  display : Bool
  desc : Bool
  names : Bool
  group : Option UInt8
  symbols : Option Bytes

/-- `bprintf("%s", get_layout(symbols, state.group))` -/
def layoutText (symbols : Bytes) (group : UInt8) : Except Fault (Option Bytes) :=
  match getLayout symbols group.toNat with
  | none => .error .nullPointer
  | some layout => .ok (bprintf layout)

def keymap (x : XkbServer) : Except Fault (Option Bytes) :=
  if x.display && x.desc && x.names then
    match x.group, x.symbols with
    | some group, some symbols => layoutText symbols group
    | _, _ => .ok none
  else .ok none

def keymapEnd (dpy : Nat) (desc : Option Nat) (layout : Option Bytes) :
    Prog Handle (Except Fault (Option Bytes)) := do
  free desc
  free (some dpy)
  return .ok layout

def keymapMem (x : XkbServer) : Prog Handle (Except Fault (Option Bytes)) :=
  if !x.display then return .ok none
  else do
    let dpy ← malloc .display
    if !x.desc then keymapEnd dpy none none
    else do
      let desc ← malloc .keyboard
      let _ ← load dpy
      let _ ← load desc
      if !x.names then keymapEnd dpy desc none
      else do
        let _ ← load dpy
        match x.group with
        | none => keymapEnd dpy desc none
        | some group => do
          let _ ← load dpy
          let _ ← load desc
          match x.symbols with
          | none => keymapEnd dpy desc none
          | some symbols => do
            let symbolsPtr ← malloc .symbols
            let _ ← load symbolsPtr
            match layoutText symbols group with
            | .error f => return .error f
            | .ok layout => do
              free (some symbolsPtr)
              keymapEnd dpy desc layout
/-- An open mixer, and what `ioctl` stores for its two requests. -/
structure OssMixer where
  devmask : Option UInt32
  read : Nat → Option UInt32

def ossLoop (afd : Nat) (x : OssMixer) (devmask : UInt32) : Nat → List Bytes →
    Prog Handle (Option Bytes)
  | _, [] => do
    free (some afd)
    return none
  | i, vname :: vnames =>
    if devmask &&& (1 <<< UInt32.ofNat i) ≠ 0 ∧ vname = lit "vol" then do
      let _ ← load afd
      match x.read i with
      | none => do
        free (some afd)
        return none
      | some v => do
        free (some afd)
        return bprintf (decimal (v &&& 255).toNat)
    else ossLoop afd x devmask (i + 1) vnames

/-- `vol_perc` without ALSA and sndio; `vnames` is SOUND_DEVICE_NAMES. -/
def ossVolPerc (vnames : List Bytes) (card : Option OssMixer) : Prog Handle (Option Bytes) :=
  match card with
  | none => return none
  | some x => do
    let afd ← malloc .device
    let _ ← load afd
    match x.devmask with
    | none => do
      free (some afd)
      return none
    | some devmask => ossLoop afd x devmask 0 vnames

/-- Opens, asks once and closes; `none` stands for a failure at either. -/
def askOnce {α : Type} (kind : Handle) (dev : Option (Option α)) : Prog Handle (Option α) :=
  match dev with
  | none => return none
  | some info => do
    let fd ← malloc kind
    let _ ← load fd
    match info with
    | none => do
      free (some fd)
      return none
    | some info => do
      free (some fd)
      return some info

namespace OpenBsd

def getstatsMem (swapctl : Swapctl) :
    Prog Handle (Except CInt.Undefined (Option (CInt.Val × CInt.Val))) :=
  if swapctl.nswap < 1 then return .ok none
  else if !swapctl.sep then return .ok none
  else do
    let sep ← malloc .swapents
    match swapctl.stats with
    | none => return .ok none
    | some ents =>
      if swapctl.nswap ≠ ents.length then do
        free (some sep)
        return .ok none
      else do
        let _ ← load sep
        match addStats ents (CInt.int 0) (CInt.int 0) with
        | .error u => return .error u
        | .ok totals => do
          free (some sep)
          return .ok (some totals)

/-- The array stays allocated if SWAP_STATS fails. -/
def getstatsLeaks (swapctl : Swapctl) : Multiset Handle :=
  if swapctl.nswap < 1 ∨ swapctl.sep = false then 0
  else
    match swapctl.stats with
    | none => {.swapents}
    | some _ => 0

/-- What comes of the device that `load_apm_power_info` opens. -/
def loadApmPowerInfo {α : Type} (dev : Option (Option α)) := askOnce .device dev

/-- What WSDISPLAYIO_GETPARAM stores. -/
structure WsDisplay where
  curval : Int32
  max : Int32

def backlightPerc (dev : Option (Option WsDisplay)) : Except Fault Reading :=
  match dev with
  | none => .ok .null
  | some none => .ok .null
  | some (some param) => Reading.decimalOf do
    CInt.div (← CInt.mul (intVal param.curval) (CInt.int 100)) (intVal param.max)

def backlightPercMem (dev : Option (Option WsDisplay)) : Prog Handle (Except Fault Reading) :=
  match dev with
  | none => return .ok .null
  | some param => do
    let fd ← malloc .device
    let _ ← load fd
    return backlightPerc (some param)

/-- What the requests of `load_ieee80211_nodereq` answer. -/
structure Ieee80211 where
  bssid : Option Bytes
  node : Bool
  rssi : UInt8

def loadIeee80211Nodereq (socket : Option Ieee80211) : Prog Handle Bool :=
  match socket with
  | none => return false
  | some x => do
    let sockfd ← malloc .device
    let _ ← load sockfd
    match x.bssid with
    | none => do
      free (some sockfd)
      return false
    | some bssid =>
      if bssid = List.replicate 6 0 then do
        free (some sockfd)
        return false
      else do
        let _ ← load sockfd
        if !x.node ∧ x.rssi ≠ 0 then do
          free (some sockfd)
          return false
        else do
          free (some sockfd)
          return true

end OpenBsd

namespace FreeBsd

def getswapinfo (kvm : Option (Option KvmSwap)) := askOnce .kvm kvm

end FreeBsd

section Triples

theorem ipLoopMem_triple (ifaddr : Nat) (interface : Bytes) (saFamily : UInt16) (ifal : List IfAddr) :
    Triple ({(ifaddr, Handle.addrs)} + 0) (ipLoopMem ifaddr interface saFamily ifal)
      (fun out own => out = ipLoop interface saFamily ifal ∧ own = 0) := by
  induction ifal with
  | nil =>
    apply Triple.free_bind
    exact .pure ⟨rfl, rfl⟩
  | cons ifa rest ih =>
    apply Triple.load_bind
    cases haddr : ifa.ifaAddr with
    | none =>
      simp only [ipLoop, haddr]
      exact ih
    | some addr =>
      simp only [ipLoop, haddr]
      split_ifs
      · exact ih
      · apply Triple.free_bind
        cases addr.host with
        | none => exact .pure ⟨rfl, rfl⟩
        | some host => exact .pure ⟨rfl, rfl⟩

theorem ipMem_triple (interface : Bytes) (saFamily : UInt16) (ifaddr : Option (List IfAddr)) :
    Triple 0 (ipMem interface saFamily ifaddr)
      (fun out own => out = ip interface saFamily ifaddr ∧ own = 0) := by
  cases ifaddr with
  | none => exact .pure ⟨rfl, rfl⟩
  | some ifal =>
    apply Triple.malloc_bind
    intro ifaddr
    exact ipLoopMem_triple ifaddr interface saFamily ifal

/-- Without a result there was nothing to read in the list after it was freed. -/
theorem upLoopMem_triple (ifaddr : Nat) {interface : Bytes} {ifal : List IfAddr}
    (h : upLoop interface ifal = none) :
    Triple ({(ifaddr, Handle.addrs)} + 0) (upLoopMem ifaddr interface ifal)
      (fun out own => out = none ∧ own = 0) := by
  induction ifal with
  | nil =>
    apply Triple.free_bind
    exact .pure ⟨rfl, rfl⟩
  | cons ifa rest ih =>
    apply Triple.load_bind
    cases haddr : ifa.ifaAddr with
    | none =>
      simp only [upLoop, haddr] at h ⊢
      exact ih h
    | some addr =>
      simp only [upLoop, haddr] at h ⊢
      split_ifs at h with hname
      rw [if_neg hname]
      exact ih h

theorem upLoopMem_misuses (ifaddr : Nat) {interface text : Bytes} {ifal : List IfAddr}
    (h : upLoop interface ifal = some text) :
    Misuses ({(ifaddr, Handle.addrs)} + 0) (upLoopMem ifaddr interface ifal) .badAccess := by
  induction ifal with
  | nil => cases h
  | cons ifa rest ih =>
    apply Misuses.load_bind
    cases haddr : ifa.ifaAddr with
    | none =>
      simp only [upLoop, haddr] at h ⊢
      exact ih h
    | some addr =>
      simp only [upLoop, haddr] at h ⊢
      by_cases hname : ifa.ifaName = interface
      · rw [if_pos hname]
        exact use_after_free
      · rw [if_neg hname] at h ⊢
        exact ih h

theorem upMem_triple {interface : Bytes} {ifaddr : Option (List IfAddr)}
    (h : up interface ifaddr = none) :
    Triple 0 (upMem interface ifaddr) (fun out own => out = none ∧ own = 0) := by
  cases ifaddr with
  | none => exact .pure ⟨rfl, rfl⟩
  | some ifal =>
    apply Triple.malloc_bind
    intro ifaddr
    exact upLoopMem_triple ifaddr h

theorem upMem_misuses {interface text : Bytes} {ifaddr : Option (List IfAddr)}
    (h : up interface ifaddr = some text) : Misuses 0 (upMem interface ifaddr) .badAccess := by
  cases ifaddr with
  | none => cases h
  | some ifal =>
    apply Misuses.malloc_bind
    intro ifaddr
    exact upLoopMem_misuses ifaddr h

theorem addBytesMem_triple (ifiBytes : IfData → UInt64) (interface : Bytes) (ifal : Nat)
    (list : List IfAddr) (bytes : UInt64) (ifOk : Bool) :
    Triple ({(ifal, Handle.addrs)} + 0) (Bsd.addBytesMem ifiBytes interface ifal list bytes ifOk)
      (fun out own => out = Bsd.addBytes ifiBytes interface list bytes ifOk ∧
        own = {(ifal, Handle.addrs)} + 0) := by
  induction list generalizing bytes ifOk with
  | nil => exact .pure ⟨rfl, rfl⟩
  | cons ifa rest ih =>
    apply Triple.load_bind
    rw [Bsd.addBytes]
    split_ifs
    · cases ifa.ifaData with
      | none => exact ih bytes ifOk
      | some ifd => exact ih _ true
    · exact ih bytes ifOk

theorem netspeedMem_triple (ifiBytes : IfData → UInt64) (interval : UInt32) (interface : Bytes)
    (ifal : Option (List IfAddr)) (old : UInt64) :
    Triple 0 (Bsd.netspeedMem ifiBytes interval interface ifal old)
      (Leaves (Bsd.netspeed ifiBytes interval interface ifal old) 0) := by
  cases ifal with
  | none => exact .pure ⟨rfl, fun _ _ => rfl⟩
  | some list =>
    apply Triple.malloc_bind
    intro ifal
    apply (addBytesMem_triple ifiBytes interface ifal list 0 false).bind
    rintro _ _ ⟨rfl, rfl⟩
    apply Triple.free_bind
    simp only [Bsd.netspeed]
    split_ifs
    · exact .pure ⟨rfl, fun _ _ => rfl⟩
    · exact .pure ⟨rfl, fun _ _ => rfl⟩
    · exact .pure ⟨rfl, fun _ _ => rfl⟩
    · exact .pure ⟨rfl, fun _ _ => rfl⟩

theorem keyboardIndicatorsMem_triple (ledMask : Option UInt64) (fmt : Option Bytes) :
    Triple 0 (keyboardIndicatorsMem ledMask fmt) (Leaves (keyboardIndicators ledMask fmt) 0) := by
  cases ledMask with
  | none => exact .pure ⟨rfl, fun _ _ => rfl⟩
  | some ledMask =>
    apply Triple.malloc_bind
    intro dpy
    apply Triple.load_bind
    apply Triple.free_bind
    exact .pure ⟨rfl, fun _ _ => rfl⟩

theorem keymapEnd_triple (dpy : Nat) (desc : Option Nat) (layout : Option Bytes) :
    Triple (owned .keyboard desc + ({(dpy, Handle.display)} + 0)) (keymapEnd dpy desc layout)
      (Leaves (.ok layout) 0) := by
  apply Triple.free_owned
  apply Triple.free_bind
  exact .pure ⟨rfl, fun _ _ => rfl⟩

theorem keymapMem_triple (x : XkbServer) : Triple 0 (keymapMem x) (Leaves (keymap x) 0) := by
  unfold keymapMem keymap
  cases x.display with
  | false => exact .pure ⟨rfl, fun _ _ => rfl⟩
  | true =>
  apply Triple.malloc_bind
  intro dpy
  cases x.desc with
  | false =>
    have hend := keymapEnd_triple dpy none none
    rw [owned, zero_add] at hend
    exact hend
  | true =>
  apply Triple.malloc_bind
  intro desc
  have hend := keymapEnd_triple dpy (some desc) none
  apply Triple.load_mem (x := Handle.display) (by simp)
  apply Triple.load_mem (x := Handle.keyboard) (by simp)
  cases x.names with
  | false => exact hend
  | true =>
  apply Triple.load_mem (x := Handle.display) (by simp)
  cases x.group with
  | none => exact hend
  | some group =>
  apply Triple.load_mem (x := Handle.display) (by simp)
  apply Triple.load_mem (x := Handle.keyboard) (by simp)
  cases x.symbols with
  | none => exact hend
  | some symbols =>
  apply Triple.malloc_bind
  intro symbolsPtr
  apply Triple.load_bind
  cases hlayout : layoutText symbols group with
  | error f =>
    simp only [Bool.and_self, if_true, hlayout]
    exact .pure ⟨rfl, by simp⟩
  | ok layout =>
    simp only [Bool.and_self, if_true, hlayout]
    apply Triple.free_bind
    exact keymapEnd_triple dpy (some desc) layout

theorem ossLoop_triple (afd : Nat) (x : OssMixer) (devmask : UInt32) (i : Nat) (vnames : List Bytes) :
    Triple ({(afd, Handle.device)} + 0) (ossLoop afd x devmask i vnames) (fun _ own => own = 0) := by
  induction vnames generalizing i with
  | nil =>
    apply Triple.free_bind
    exact .pure rfl
  | cons vname vnames ih =>
    rw [ossLoop]
    split_ifs
    · apply Triple.load_bind
      cases x.read i with
      | none =>
        apply Triple.free_bind
        exact .pure rfl
      | some v =>
        apply Triple.free_bind
        exact .pure rfl
    · exact ih (i + 1)

theorem ossVolPerc_triple (vnames : List Bytes) (card : Option OssMixer) :
    Triple 0 (ossVolPerc vnames card) (fun _ own => own = 0) := by
  cases card with
  | none => exact .pure rfl
  | some x =>
    apply Triple.malloc_bind
    intro afd
    apply Triple.load_bind
    cases x.devmask with
    | none =>
      apply Triple.free_bind
      exact .pure rfl
    | some devmask => exact ossLoop_triple afd x devmask 0 vnames

theorem askOnce_triple {α : Type} (kind : Handle) (dev : Option (Option α)) :
    Triple 0 (askOnce kind dev) (fun out own => out = dev.join ∧ own = 0) := by
  cases dev with
  | none => exact .pure ⟨rfl, rfl⟩
  | some info =>
    apply Triple.malloc_bind
    intro fd
    apply Triple.load_bind
    cases info with
    | none =>
      apply Triple.free_bind
      exact .pure ⟨rfl, rfl⟩
    | some info =>
      apply Triple.free_bind
      exact .pure ⟨rfl, rfl⟩

theorem getstatsMem_triple (swapctl : OpenBsd.Swapctl) :
    Triple 0 (OpenBsd.getstatsMem swapctl)
      (Leaves (OpenBsd.getstats swapctl) (OpenBsd.getstatsLeaks swapctl)) := by
  unfold OpenBsd.getstatsMem OpenBsd.getstats OpenBsd.getstatsLeaks
  by_cases hnone : swapctl.nswap < 1
  · rw [if_pos hnone, if_pos hnone, if_pos (.inl hnone)]
    exact .pure ⟨rfl, fun _ _ => rfl⟩
  rw [if_neg hnone, if_neg hnone]
  cases swapctl.sep with
  | false => exact .pure ⟨rfl, fun _ _ => by simp⟩
  | true =>
  apply Triple.malloc_bind
  intro sep
  cases swapctl.stats with
  | none => exact .pure ⟨rfl, fun _ _ => by simp [hnone]⟩
  | some ents =>
    by_cases hcount : swapctl.nswap ≠ ents.length
    · simp only [Bool.not_true, Bool.false_eq_true, if_false, if_pos hcount]
      apply Triple.free_bind
      exact .pure ⟨rfl, fun _ _ => by simp⟩
    · simp only [Bool.not_true, Bool.false_eq_true, if_false, if_neg hcount]
      apply Triple.load_bind
      cases OpenBsd.addStats ents (CInt.int 0) (CInt.int 0) with
      | error u => exact .pure ⟨rfl, by simp [Except.map]⟩
      | ok totals =>
        apply Triple.free_bind
        exact .pure ⟨rfl, fun _ _ => by simp⟩

theorem backlightPercMem_triple (dev : Option (Option OpenBsd.WsDisplay)) :
    Triple 0 (OpenBsd.backlightPercMem dev)
      (Leaves (OpenBsd.backlightPerc dev) (if dev.isSome then {.device} else 0)) := by
  cases dev with
  | none => exact .pure ⟨rfl, fun _ _ => rfl⟩
  | some param =>
    apply Triple.malloc_bind
    intro fd
    apply Triple.load_bind
    exact .pure ⟨rfl, fun _ _ => rfl⟩

theorem loadIeee80211Nodereq_triple (socket : Option OpenBsd.Ieee80211) :
    Triple 0 (OpenBsd.loadIeee80211Nodereq socket) (fun _ own => own = 0) := by
  cases socket with
  | none => exact .pure rfl
  | some x =>
    apply Triple.malloc_bind
    intro sockfd
    apply Triple.load_bind
    cases x.bssid with
    | none =>
      apply Triple.free_bind
      exact .pure rfl
    | some bssid =>
      by_cases hzero : bssid = List.replicate 6 0
      · simp only [if_pos hzero]
        apply Triple.free_bind
        exact .pure rfl
      · simp only [if_neg hzero]
        apply Triple.load_bind
        split_ifs
        · apply Triple.free_bind
          exact .pure rfl
        · apply Triple.free_bind
          exact .pure rfl

end Triples

end Slstatus
