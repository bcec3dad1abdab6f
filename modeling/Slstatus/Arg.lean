import Slstatus.Basic

/-! The component functions a module can name and the `struct arg` of slstatus.c.
The components are those of the Linux build. -/

namespace Slstatus

inductive Func
  | backlightPerc | batteryPerc | batteryRemaining | batteryState | cat
  | cpuFreq | cpuPerc | datetime | diskFree | diskPerc | diskTotal | diskUsed
  | entropy | gid | hostname | ioIn | ioOut | ioPerc | ipv4 | ipv6
  | kernelRelease | keyboardIndicators | keymap | loadAvg | mpdonair
  | netspeedRx | netspeedTx | numFiles | ramFree | ramPerc | ramTotal | ramUsed
  | runCommand | runExec | swapFree | swapPerc | swapTotal | swapUsed | temp
  | uid | uptime | username | volPerc | wifiEssid | wifiPerc
  deriving DecidableEq, Repr

/-- The components that read their argument as a string; the others call their
parameter `unused`. -/
def Func.readsArgument : Func → Bool
  | .backlightPerc | .batteryPerc | .batteryRemaining | .batteryState | .cat
  | .datetime | .diskFree | .diskPerc | .diskTotal | .diskUsed | .ipv4 | .ipv6
  | .keyboardIndicators | .mpdonair | .netspeedRx | .netspeedTx | .numFiles
  | .runCommand | .runExec | .temp | .volPerc | .wifiEssid | .wifiPerc => true
  | _ => false

structure Arg where
  func : Option Func := none
  fmt : Option Bytes := none
  args : Option Bytes := none
  statusNo : Option Bytes := none
  updateInterval : UInt32 := 0

def unknownStr : Bytes := lit "n/a"

end Slstatus
