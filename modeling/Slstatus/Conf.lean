import Slstatus.Arg

/-! conf.c: from a configuration document to the globals that main and the
components read. libconfig is a parameter: a type of settings with the calls that
conf.c makes on it. -/

namespace Slstatus

/-- The libconfig calls of conf.c on settings of type `S`. A lookup that fails is
`none`, and it leaves the variable it was to fill as it was. -/
structure Libconfig (S : Type) where
  lookup : S → String → Option S
  getInt : S → Int32
  lookupInt : S → String → Option Int32
  lookupString : S → String → Option Bytes
  isList : S → Bool
  elems : S → List S

inductive OnTextFits
  | noScroll | fullSpaceSeparator | forceScroll
  deriving DecidableEq, Repr

/-- The globals that conf.c fills, with their initial values. `modules` is NULL
or an array, and `num_modules` is kept apart from it. -/
structure Config where
  interval : UInt32 := 1000
  maximumStatusLength : Int32 := 2048
  unknownString : Option Bytes := none
  numModules : Nat := 0
  modules : Option (List Arg) := none
  mpdTitleLength : Int32 := 20
  mpdLoopText : Option Bytes := none
  mpdOnTextFits : OnTextFits := .noScroll

def toLower (c : UInt8) : UInt8 := if 65 ≤ c ∧ c ≤ 90 then c + 32 else c

def sameName (string name : Bytes) : Bool := string.map toLower == name.map toLower

def functionNames (haveMpd : Bool) : List (String × Func) :=
  [("backlight_perc", .backlightPerc), ("battery_perc", .batteryPerc),
    ("battery_remaining", .batteryRemaining), ("battery_state", .batteryState),
    ("cat", .cat), ("cpu_freq", .cpuFreq), ("cpu_perc", .cpuPerc),
    ("datetime", .datetime), ("disk_free", .diskFree), ("disk_perc", .diskPerc),
    ("disk_total", .diskTotal), ("disk_used", .diskUsed), ("entropy", .entropy),
    ("gid", .gid), ("hostname", .hostname), ("io_in", .ioIn), ("io_out", .ioOut),
    ("io_perc", .ioPerc), ("ipv4", .ipv4), ("ipv6", .ipv6),
    ("kernel_release", .kernelRelease), ("keyboard_indicators", .keyboardIndicators),
    ("keymap", .keymap), ("load_avg", .loadAvg)] ++
  (if haveMpd then [("mpdonair", .mpdonair)] else []) ++
  [("netspeed_rx", .netspeedRx), ("netspeed_tx", .netspeedTx), ("num_files", .numFiles),
    ("ram_free", .ramFree), ("ram_perc", .ramPerc), ("ram_total", .ramTotal),
    ("ram_used", .ramUsed), ("run_command", .runCommand), ("run_exec", .runExec),
    ("swap_free", .swapFree), ("swap_perc", .swapPerc), ("swap_total", .swapTotal),
    ("swap_used", .swapUsed), ("temp", .temp), ("uid", .uid), ("uptime", .uptime),
    ("username", .username), ("vol_perc", .volPerc), ("wifi_essid", .wifiEssid),
    ("wifi_perc", .wifiPerc)]

def parseFunction (haveMpd : Bool) (string : Bytes) : Func :=
  match (functionNames haveMpd).find? (fun e => sameName string (lit e.1)) with
  | some e => e.2
  | none => .datetime

def parseMpdOnTextFits (string : Bytes) : OnTextFits :=
  if sameName string (lit "NO_SCROLL") then .noScroll
  else if sameName string (lit "FULL_SPACE_SEPARATOR") then .fullSpaceSeparator
  else if sameName string (lit "FORCE_SCROLL") then .forceScroll
  else .noScroll

variable {S : Type} (lib : Libconfig S)

/-- `config_setting_get_unsigned_int`: the number to store, `none` when the
function returns 0. A setting that is not an integer reads as 0 and is stored. -/
def getUnsignedInt (item : Option S) : Option UInt32 :=
  match item with
  | none => none
  | some item => if lib.getInt item < 0 then none else some (lib.getInt item).toUInt32

def loadModule (haveMpd : Bool) (t : S) : Arg where
  func := (lib.lookupString t "function").map (parseFunction haveMpd)
  fmt := some ((lib.lookupString t "format").getD (lit "%s"))
  args := lib.lookupString t "argument"
  statusNo := lib.lookupString t "status_no"
  updateInterval := (getUnsignedInt lib (lib.lookup t "update_interval")).getD 1

def loadModules (haveMpd : Bool) (doc : S) (c : Config) : Config :=
  match lib.lookup doc "modules" with
  | none => c
  | some modulesT =>
    if lib.isList modulesT then
      let c := { c with numModules := (lib.elems modulesT).length }
      if c.numModules = 0 then c
      else { c with modules := some ((lib.elems modulesT).map (loadModule lib haveMpd)) }
    else c

def loadMpdonair (doc : S) (c : Config) : Config :=
  { c with
    mpdTitleLength := (lib.lookupInt doc "mpd.title_length").getD c.mpdTitleLength
    mpdLoopText := (lib.lookupString doc "mpd.loop_text").or c.mpdLoopText
    mpdOnTextFits := ((lib.lookupString doc "mpd.on_text_fits").map parseMpdOnTextFits).getD
      c.mpdOnTextFits }

def defaultArgs : List Arg :=
  [⟨some .datetime, some (lit "%s"), some (lit "%F %T"), some (lit "1"), 1⟩]

def loadFallbackConfig (haveMpd : Bool) (c : Config) : Config :=
  let c := if haveMpd then { c with mpdLoopText := c.mpdLoopText.or (some (lit " ~ ")) } else c
  match c.modules with
  | some _ => c
  | none => { c with numModules := defaultArgs.length, modules := some defaultArgs }

/-- The document is `none` when the file is missing or libconfig rejects it. -/
def loadConfig (haveMpd : Bool) (doc : Option S) : Config :=
  let c : Config := {}
  let c :=
    match doc with
    | none => c
    | some doc =>
      let c := { c with
        interval := (getUnsignedInt lib (lib.lookup doc "interval")).getD c.interval
        maximumStatusLength := (lib.lookupInt doc "maximum_length").getD c.maximumStatusLength
        unknownString := (lib.lookupString doc "unknown_string").or c.unknownString }
      let c := loadModules lib haveMpd doc c
      if haveMpd then loadMpdonair lib doc c else c
  loadFallbackConfig haveMpd c

end Slstatus
