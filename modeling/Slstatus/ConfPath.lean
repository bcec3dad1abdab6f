import Slstatus.Lib.Buffer
import Slstatus.Conf

/-! Where load_config looks for its file, and the directory in which libconfig looks for the
files that it includes: `get_config_path` of conf.c and `path_dirname` of util.c. -/

namespace Slstatus

structure Environment where
  xdgConfigHome : Option Bytes := none
  home : Option Bytes := none

def progname : Bytes := lit "slstatus"

def cfgFilename : Bytes := lit "slstatus.cfg"

def startswith (needle haystack : Bytes) : Bool := needle.isPrefixOf haystack

def getConfigPath (env : Environment) (filename : Option Bytes) : Option Bytes :=
  match filename with
  | none => none
  | some filename =>
    if startswith (lit "/") filename then some filename
    else if env.xdgConfigHome.getD [] ≠ [] then
      some (env.xdgConfigHome.getD [] ++ lit "/" ++ progname ++ lit "/" ++ filename)
    else if env.home.getD [] ≠ [] then
      some (env.home.getD [] ++ lit "/.config/" ++ progname ++ lit "/" ++ filename)
    else none

/-- What stands before the last slash is as long as the slash is far from the start. -/
def pathDirname (path : Option Bytes) : Bytes :=
  if path.getD [] = [] then lit "."
  else
    match CString.beforeLast 47 (path.getD []) with
    | none => lit "."
    | some [] => lit "/"
    | some out => out

end Slstatus
