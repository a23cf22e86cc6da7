import PaneGrid.Command.Run

/-! The program on the file system and the environment of its process. -/

namespace PaneGrid

def reasonOf : IO.Error → String
  | .noFileOrDirectory .. => "No such file or directory (os error 2)"
  | .permissionDenied .. => "Permission denied (os error 13)"
  | .alreadyExists .. => "File exists (os error 17)"
  | .inappropriateType .. => "Not a directory (os error 20)"
  | failure => toString failure

def attempt {α : Type} (act : IO α) : IO (Except String α) := do
  try
    return .ok (← act)
  catch failure =>
    return .error (reasonOf failure)

/-- A path is present if it can be opened, or cannot for any reason but that it is missing. -/
def canOpen (path : String) : IO Bool := do
  try
    let _ ← IO.FS.Handle.mk path .read
    return true
  catch
    | .noFileOrDirectory .. => return false
    | .inappropriateType .. => return false
    | _ => return true

def processFiles : Files IO where
  read path := attempt (IO.FS.readBinFile path)
  isPresent := canOpen
  makeFolders path := attempt (IO.FS.createDirAll path)
  write path content := attempt (IO.FS.writeBinFile path content)

/-- Identities that follow a random one. -/
def randomSupply : IO (Nat → NodeId) := do
  let bytes ← IO.getRandomBytes 16
  let seed := bytes.toList.foldl (fun n b => 256 * n + b.toNat) 0
  return fun n => ⟨.ofPayload (seed + n)⟩

end PaneGrid

def main (args : List String) : IO UInt32 := do
  let around : PaneGrid.Surroundings :=
    { configFile := ← IO.getEnv "SPLITGRID_CONFIG"
      configHome := ← IO.getEnv "XDG_CONFIG_HOME"
      home := ← IO.getEnv "HOME" }
  let outcome ← PaneGrid.Command.run PaneGrid.processFiles around (← PaneGrid.randomSupply) args
  IO.print outcome.out
  IO.eprint outcome.err
  return outcome.exitCode.toUInt32
