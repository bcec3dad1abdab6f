import Slstatus.Arg
import Slstatus.FmtHuman

/-! The components that print the difference of two samples: netspeeds.c,
iocheck.c and cpu.c on Linux. Each keeps its last sample in a static variable,
and there is one such variable for each function, not for each module. -/

namespace Slstatus

/-- What a component returns: the number it prints, if it prints one, and the
text, with `none` for NULL. -/
structure Reading where
  value : Option ℚ
  text : Option Bytes
  deriving DecidableEq

def Reading.null : Reading := ⟨none, none⟩

def Reading.human (num : UInt64) : Except Fault Reading :=
  match fmtHuman num 1024 with
  | .error f => .error f
  | .ok text => .ok ⟨some num.toNat, text⟩

def netRxBytes : Bytes := lit "/sys/class/net/%s/statistics/rx_bytes"

def netTxBytes : Bytes := lit "/sys/class/net/%s/statistics/tx_bytes"

/-- The common body of `netspeed_rx` and `netspeed_tx`. The counter is what
`pscanf` converts, `none` when it converts nothing, and `old` is the static. -/
def netspeed (path : Bytes) (interval : UInt32) (interface : Option Bytes)
    (counter : Option UInt64) (old : UInt64) : Except Fault (Reading × UInt64) :=
  match interface with
  | none => .error .nullPointer
  | some interface =>
    match esnprintf 4096 path [interface] with
    | .error f => .error f
    | .ok (ret, _) =>
      if ret < 0 then .ok (.null, old)
      else
        match counter with
        | none => .ok (.null, old)
        | some bytes =>
          if old = 0 then .ok (.null, bytes)
          else if interval = 0 then .error .divByZero
          else (Reading.human ((bytes - old) * 1000 / interval.toUInt64)).map (·, bytes)

def netspeedRx := netspeed netRxBytes

def netspeedTx := netspeed netTxBytes

def counterRead (path : Bytes) (interface : Option Bytes) (counter : Option UInt64) :
    Option UInt64 :=
  match interface with
  | none => none
  | some interface =>
    match esnprintf 4096 path [interface] with
    | .error _ => none
    | .ok (ret, _) => if ret < 0 then none else counter

theorem netspeed_eq_ok {path : Bytes} {interval : UInt32} {interface : Option Bytes}
    {counter : Option UInt64} {old new : UInt64} {r : Reading}
    (h : netspeed path interval interface counter old = .ok (r, new)) :
    (counterRead path interface counter = none ∧ r = .null ∧ new = old) ∨
    (counterRead path interface counter = some new ∧ old = 0 ∧ r = .null) ∨
    (counterRead path interface counter = some new ∧ old ≠ 0 ∧
      Reading.human ((new - old) * 1000 / interval.toUInt64) = .ok r) := by
  cases interface with
  | none => cases h
  | some interface =>
  cases hpath : esnprintf 4096 path [interface] with
  | error f => simp [netspeed, hpath] at h
  | ok out =>
  by_cases hret : out.1 < 0
  · simp [netspeed, hpath, hret] at h
    exact .inl ⟨by simp [counterRead, hpath, hret], h.1.symm, h.2.symm⟩
  · cases counter with
    | none =>
      simp [netspeed, hpath, hret] at h
      exact .inl ⟨by simp [counterRead, hpath], h.1.symm, h.2.symm⟩
    | some bytes =>
      by_cases hold : old = 0
      · simp [netspeed, hpath, hret, hold] at h
        exact .inr (.inl ⟨by simp [counterRead, hpath, hret, h.2], hold, h.1.symm⟩)
      · by_cases hinterval : interval = 0
        · simp [netspeed, hpath, hret, hold, hinterval] at h
        · simp only [netspeed, hpath, if_neg hret, if_neg hold, if_neg hinterval] at h
          cases hr : Reading.human ((bytes - old) * 1000 / interval.toUInt64) with
          | error f => simp [hr, Except.map] at h
          | ok a =>
            simp only [hr, Except.map, Except.ok.injEq, Prod.mk.injEq] at h
            obtain ⟨rfl, rfl⟩ := h
            exact .inr (.inr ⟨by simp [counterRead, hpath, hret], hold, hr⟩)

/-- What `get_io` does for one variable: its return value is nonzero, and the
number it stores, if it stores one. -/
structure GetIo where
  failed : Bool
  stored : Option UInt64
  deriving DecidableEq

def ioCounter (io : GetIo) (old : UInt64) : Except Fault (Reading × UInt64) :=
  let new := io.stored.getD old
  if io.failed then .ok (.null, new)
  else if old = 0 then .ok (.null, new)
  else (Reading.human ((new - old) * 1024)).map (·, new)

def ioIn := ioCounter

def ioOut := ioCounter

/-- `bprintf("%0.1f", num / (float)interval)`, the quotient taken as exact. -/
def Reading.quotient (num : UInt64) (interval : UInt32) : Reading :=
  if interval = 0 then ⟨none, bprintf (if num = 0 then lit "nan" else lit "inf")⟩
  else ⟨some (num.toNat / interval.toNat),
    bprintf (fixed1 (num.toNat / interval.toNat))⟩

/-- `wait` is the sum that the walk over /sys/block leaves in `newwait`, or `none`
when the directory cannot be opened. -/
def ioPerc (interval : UInt32) (wait : Option UInt64) (old : UInt64) : Reading × UInt64 :=
  match wait with
  | none => (.null, old)
  | some new =>
    if old = 0 ∨ new < old then (.null, new)
    else (.quotient (100 * (new - old)) interval, new)

structure CpuStat where
  user : Int := 0
  nice : Int := 0
  system : Int := 0
  idle : Int := 0
  iowait : Int := 0
  irq : Int := 0
  softirq : Int := 0

namespace CpuStat

/-- The scan stores the fields it converts, from the first one on. -/
def assign (a : CpuStat) (fields : List Int) : CpuStat where
  user := fields[0]?.getD a.user
  nice := fields[1]?.getD a.nice
  system := fields[2]?.getD a.system
  idle := fields[3]?.getD a.idle
  iowait := fields[4]?.getD a.iowait
  irq := fields[5]?.getD a.irq
  softirq := fields[6]?.getD a.softirq

def total (a : CpuStat) : Int :=
  a.user + a.nice + a.system + a.idle + a.iowait + a.irq + a.softirq

def busy (a : CpuStat) : Int := a.user + a.nice + a.system + a.irq + a.softirq

end CpuStat

def cpuPerc (stat : Option (List Int)) (b : CpuStat) : Reading × CpuStat :=
  match stat with
  | none => (.null, b)
  | some fields =>
    let a := b.assign fields
    if fields.length ≠ 7 then (.null, a)
    else if b.user = 0 then (.null, a)
    else
      let sum := b.total - a.total
      if sum = 0 then (.null, a)
      else
        let percent := (100 * (b.busy - a.busy)).tdiv sum
        (⟨some percent, bprintf (decimalInt percent)⟩, a)

structure Statics where
  rxbytes : UInt64 := 0
  txbytes : UInt64 := 0
  newin : UInt64 := 0
  newout : UInt64 := 0
  newwait : UInt64 := 0
  a : CpuStat := {}

/-- What one call of a component finds outside the program. A component reads the
field that belongs to it; `text` is the result of a component without samples. -/
structure Outside where
  counter : Option UInt64 := none
  io : GetIo := ⟨true, none⟩
  wait : Option UInt64 := none
  stat : Option (List Int) := none
  text : Option Bytes := none
  deriving DecidableEq

def callFunc (interval : UInt32) (f : Func) (args : Option Bytes) (o : Outside) (s : Statics) :
    Except Fault (Reading × Statics) :=
  match f with
  | .netspeedRx =>
    (netspeedRx interval args o.counter s.rxbytes).map (fun r => (r.1, { s with rxbytes := r.2 }))
  | .netspeedTx =>
    (netspeedTx interval args o.counter s.txbytes).map (fun r => (r.1, { s with txbytes := r.2 }))
  | .ioIn => (ioIn o.io s.newin).map (fun r => (r.1, { s with newin := r.2 }))
  | .ioOut => (ioOut o.io s.newout).map (fun r => (r.1, { s with newout := r.2 }))
  | .ioPerc =>
    let r := ioPerc interval o.wait s.newwait
    .ok (r.1, { s with newwait := r.2 })
  | .cpuPerc =>
    let r := cpuPerc o.stat s.a
    .ok (r.1, { s with a := r.2 })
  | f =>
    if f.readsArgument && args.isNone then .error .nullPointer
    else .ok (⟨none, o.text⟩, s)

end Slstatus
