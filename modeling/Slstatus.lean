import Slstatus.ConfDocument
import Slstatus.Nl80211fam
import Slstatus.TickIsolation
import Slstatus.RunExec
import Slstatus.Sampling
import Slstatus.CounterLaw
import Slstatus.LockFile
import Slstatus.ScrollBytes
import Slstatus.SongLaw
import Slstatus.FindattrSafety
import Slstatus.WifiEssid
import Slstatus.WifiPerc
import Slstatus.PercWalk
import Slstatus.StationDump
import Slstatus.StationWalk
import Slstatus.DumpLaw
import Slstatus.NetlinkQueue
import Slstatus.Lib.WrapCounter
import Slstatus.Schedule
import Slstatus.Commands
import Slstatus.Signals
import Slstatus.ScrollSafety
import Slstatus.Lib.KeyedList
import Slstatus.Volume
import Slstatus.VolumeControls
import Slstatus.CpuLaw
import Slstatus.Lib.CInt
import Slstatus.Decimal
import Slstatus.GetInfo
import Slstatus.HumanScale
import Slstatus.LinuxMemory
import Slstatus.LinuxFigures
import Slstatus.BsdMemory
import Slstatus.BsdFigures
import Slstatus.Battery
import Slstatus.Keymap
import Slstatus.RunCommand
import Slstatus.ExecArgs
import Slstatus.Lib.Utf8
import Slstatus.TitleCut
import Slstatus.TitleUtf8
import Slstatus.HumanNormal
import Slstatus.Timespec
import Slstatus.BlockWait
import Slstatus.Strlcat
import Slstatus.TitleBuffer
import Slstatus.LineScan
import Slstatus.Children
import Slstatus.VolumeDevice
import Slstatus.ConfMemory
import Slstatus.MpdResources
import Slstatus.Lib.Rounding
import Slstatus.HumanDouble
import Slstatus.DoubleFigures
import Slstatus.ExecMemory
import Slstatus.IfIndex
import Slstatus.StatusBar
import Slstatus.MainLife
import Slstatus.RoomyFormats
import Slstatus.KeyboardIndicators
import Slstatus.IfAddrs
import Slstatus.OpenFiles
import Slstatus.OpenDevices
import Slstatus.Releases
import Slstatus.FloatFigures
import Slstatus.ConfSpelling
import Slstatus.DocumentBar
import Slstatus.VolumeAlsa
import Slstatus.CpuBsd
import Slstatus.IncludeDir
import Slstatus.Strlcpy
import Slstatus.Lib.Pace
import Slstatus.BarAge
import Slstatus.Marquee
