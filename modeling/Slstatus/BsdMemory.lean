import Slstatus.LinuxMemory

/-! ram.c and swap.c on OpenBSD and on FreeBSD, where an int has 32 bits and a long 64:
the numbers that `fmt_human` and `bprintf` get, for a page size of 4096 bytes. -/

namespace Slstatus

def intVal (n : Int32) : CInt.Val := ⟨.int, n.toInt, n.le_toInt, n.toInt_lt⟩

theorem uint_holds (n : UInt32) : CInt.Ty.uint.Holds n.toNat := by
  have := n.toNat_lt
  simp only [CInt.Ty.Holds, CInt.Ty.lo, CInt.Ty.hi]
  omega

def uintVal (n : UInt32) : CInt.Val := ⟨.uint, n.toNat, uint_holds n⟩

namespace OpenBsd

structure SwapEnt where
  seNblks : Int32
  seInuse : Int32

/-- The two answers of `swapctl` and that of `calloc`, `none` where a call fails. -/
structure Swapctl where
  nswap : Int
  sep : Bool
  stats : Option (List SwapEnt)

/-- `sum += blocks >> 1` -/
def addHalf (sum : CInt.Val) (blocks : Int32) : Except CInt.Undefined CInt.Val := do
  CInt.add sum (← CInt.shr (intVal blocks) 1)

def addStats : List SwapEnt → CInt.Val → CInt.Val → Except CInt.Undefined (CInt.Val × CInt.Val)
  | [], total, used => .ok (total, used)
  | ent :: sep, total, used => do
    let total ← addHalf total ent.seNblks
    let used ← addHalf used ent.seInuse
    addStats sep total used

def getstats (swapctl : Swapctl) : Except CInt.Undefined (Option (CInt.Val × CInt.Val)) :=
  if swapctl.nswap < 1 then .ok none
  else if !swapctl.sep then .ok none
  else
    match swapctl.stats with
    | none => .ok none
    | some sep =>
      if swapctl.nswap ≠ sep.length then .ok none
      else (addStats sep (CInt.int 0) (CInt.int 0)).map some

/-- What the swap components do with the totals; they return NULL without them. -/
def withStats (swapctl : Swapctl) (f : CInt.Val → CInt.Val → Except Fault Reading) :
    Except Fault Reading :=
  match getstats swapctl with
  | .error u => .error (arithFault u)
  | .ok none => .ok .null
  | .ok (some (total, used)) => f total used

def swapFree (swapctl : Swapctl) : Except Fault Reading :=
  withStats swapctl fun total used => Reading.humanOf do
    CInt.mul (← CInt.sub total used) (CInt.int 1024)

def swapPerc (swapctl : Swapctl) : Except Fault Reading :=
  withStats swapctl fun total used =>
    if total.z = 0 then .ok .null
    else Reading.decimalOf do CInt.div (← CInt.mul (CInt.int 100) used) total

def swapTotal (swapctl : Swapctl) : Except Fault Reading :=
  withStats swapctl fun total _ => Reading.humanOf (CInt.mul total (CInt.int 1024))

def swapUsed (swapctl : Swapctl) : Except Fault Reading :=
  withStats swapctl fun _ used => Reading.humanOf (CInt.mul used (CInt.int 1024))

structure Uvmexp where
  npages : Int32
  active : Int32
  pageshift : Nat

def pagetok (size : CInt.Val) (pageshift : Nat) : Except CInt.Undefined CInt.Val :=
  (CInt.shl size (pageshift - 10)).map (CInt.convert .ulong)

/-- `fmt_human(pagetok(size, uvmexp.pageshift) * 1024, 1024)` -/
def pagesHuman (uvmexp : Uvmexp) (size : CInt.Val) : Except Fault Reading :=
  Reading.humanOf do CInt.mul (← pagetok size uvmexp.pageshift) (CInt.int 1024)

def ramFree (uvmexp : Option Uvmexp) : Except Fault Reading :=
  match uvmexp with
  | none => .ok .null
  | some uvmexp =>
    match CInt.sub (intVal uvmexp.npages) (intVal uvmexp.active) with
    | .error u => .error (arithFault u)
    | .ok freePages => pagesHuman uvmexp freePages

def ramPerc (uvmexp : Option Uvmexp) : Except Fault Reading :=
  match uvmexp with
  | none => .ok .null
  | some uvmexp => Reading.decimalOf do
    CInt.div (← CInt.mul (intVal uvmexp.active) (CInt.int 100)) (intVal uvmexp.npages)

def ramTotal (uvmexp : Option Uvmexp) : Except Fault Reading :=
  match uvmexp with
  | none => .ok .null
  | some uvmexp => pagesHuman uvmexp (intVal uvmexp.npages)

def ramUsed (uvmexp : Option Uvmexp) : Except Fault Reading :=
  match uvmexp with
  | none => .ok .null
  | some uvmexp => pagesHuman uvmexp (intVal uvmexp.active)

end OpenBsd

namespace FreeBsd

def getpagesize : CInt.Val := CInt.int 4096

structure KvmSwap where
  kswTotal : UInt32
  kswUsed : UInt32

def KvmSwap.total (info : KvmSwap) : CInt.Val := CInt.convert .long (uintVal info.kswTotal)

def KvmSwap.used (info : KvmSwap) : CInt.Val := CInt.convert .long (uintVal info.kswUsed)

def swapFree (info : Option KvmSwap) : Except Fault Reading :=
  match info with
  | none => .ok .null
  | some info => Reading.humanOf do CInt.mul (← CInt.sub info.total info.used) getpagesize

def swapPerc (info : Option KvmSwap) : Except Fault Reading :=
  match info with
  | none => .ok .null
  | some info => Reading.decimalOf do CInt.div (← CInt.mul info.used (CInt.int 100)) info.total

def swapTotal (info : Option KvmSwap) : Except Fault Reading :=
  match info with
  | none => .ok .null
  | some info => Reading.humanOf (CInt.mul info.total getpagesize)

def swapUsed (info : Option KvmSwap) : Except Fault Reading :=
  match info with
  | none => .ok .null
  | some info => Reading.humanOf (CInt.mul info.used getpagesize)

/-- The field `t_free` has the type that the release gives it. -/
def ramFree (tFree : Option CInt.Val) : Except Fault Reading :=
  match tFree with
  | none => .ok .null
  | some tFree => Reading.humanOf (CInt.mul tFree getpagesize)

def ramTotal (npages : Option UInt32) : Except Fault Reading :=
  match npages with
  | none => .ok .null
  | some npages => Reading.humanOf (CInt.mul (uintVal npages) getpagesize)

def ramPerc (npages active : Option UInt32) : Except Fault Reading :=
  match npages, active with
  | some npages, some active => Reading.decimalOf do
    CInt.div (← CInt.mul (uintVal active) (CInt.int 100)) (uintVal npages)
  | _, _ => .ok .null

def ramUsed (active : Option UInt32) : Except Fault Reading :=
  match active with
  | none => .ok .null
  | some active => Reading.humanOf (CInt.mul (uintVal active) getpagesize)

end FreeBsd

end Slstatus
