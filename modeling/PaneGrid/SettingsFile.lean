import PaneGrid.Files.Basic
import PaneGrid.Settings

/-! Settings in files. The file of a user lies in the configuration folder. -/

namespace PaneGrid

/-- The variables of the environment that matter. -/
structure Surroundings where
  /-- Path of a settings file; an option on the command line comes first. -/
  configFile : Option String
  /-- The user's configuration folder, if it is absolute. -/
  configHome : Option String
  home : Option String
deriving DecidableEq, Repr

namespace Surroundings

def configFolder (e : Surroundings) : Option String :=
  match e.configHome.filter Path.isAbsolute with
  | some folder => some folder
  | none => (e.home.filter (· ≠ "")).map (Path.join · ".config")

/-- The settings file that is used if none is named. -/
def defaultSettingsPath (e : Surroundings) : Option String :=
  e.configFolder.map fun folder => Path.join (Path.join folder "splitgrid") "settings.toml"

end Surroundings

namespace Settings

variable {m : Type → Type} [Monad m]

def load (files : Files m) (path : String) : m (Except ConfigFault Settings) := do
  match ← files.readText path with
  | .error reason => return .error (.io path reason)
  | .ok text => return ofToml text

/-- Settings that do not validate are not written. Missing folders are made first. -/
def save (files : Files m) (path : String) (s : Settings) : m (Except ConfigFault Unit) := do
  if let .error fault := s.validate then return .error fault
  let parent := (Path.parent? path).getD ""
  if parent ≠ "" then
    if let .error reason ← files.makeFolders parent then return .error (.io parent reason)
  return (← files.writeText path s.toToml).mapError (.io path)

/-- The user's settings, or the defaults if there is no such file. -/
def loadOrDefault (files : Files m) (around : Surroundings) : m (Except ConfigFault Settings) := do
  match around.defaultSettingsPath with
  | none => return .ok default
  | some path => if ← files.isPresent path then load files path else return .ok default

end Settings

end PaneGrid
