import Slstatus.Conf
import Slstatus.Counters
import Slstatus.MainLoop

/-! The update loop of main over the loaded configuration and the components with
their static variables. What the components find outside, at each iteration and
for each module, is given by an environment. -/

namespace Slstatus

def live (interval : UInt32) : Components Outside Statics Reading :=
  ⟨callFunc interval, Reading.text⟩

def Config.table (c : Config) : Except Fault (List Arg) :=
  match c.modules with
  | none => if c.numModules = 0 then .ok [] else .error .nullPointer
  | some ms => if c.numModules ≤ ms.length then .ok (ms.take c.numModules) else .error .outOfBounds

def mainTick (c : Config) (loopCount : UInt32) (input : Nat → Outside) (s : Statics) :
    List (Event Outside Reading) × LoopEnd × Statics :=
  if c.maximumStatusLength < 1 then ([], .faulted .badArraySize, s)
  else
    match c.table with
    | .error f => ([], .faulted f, s)
    | .ok table =>
      moduleLoop (live c.interval) c.maximumStatusLength.toNatClampNeg c.unknownString loopCount
        input 0 table s

/-- The state between two iterations: the counter, the static variables, what has
happened so far, and the fault that ended the run, if one did. -/
structure RunState where
  loopCount : UInt32 := 0
  statics : Statics := {}
  log : List (Event Outside Reading) := []
  fault : Option Fault := none

def LoopEnd.fault : LoopEnd → Option Fault
  | .faulted f => some f
  | _ => none

def iteration (c : Config) (input : Nat → Outside) (r : RunState) : RunState :=
  match r.fault with
  | some _ => r
  | none =>
    let t := mainTick c r.loopCount input r.statics
    { loopCount := r.loopCount + 1
      statics := t.2.2
      log := r.log ++ t.1
      fault := t.2.1.fault }

def runMain (c : Config) (env : Nat → Nat → Outside) : Nat → RunState
  | 0 => {}
  | n + 1 => iteration c (env n) (runMain c env n)

end Slstatus
