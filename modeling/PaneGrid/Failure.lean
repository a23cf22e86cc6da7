import PaneGrid.Fault
import PaneGrid.Settings

/-! Why a command ends without its result, and the exit code that reports it. -/

namespace PaneGrid

inductive Failure where
  | config (fault : ConfigFault)
  /-- A script line cannot be read or names an unknown label. -/
  | script (line : Nat) (reason : String)
  /-- The tree refused the edit of a script line. -/
  | layout (line : Nat) (fault : LayoutFault)
  | compute (fault : LayoutFault)
  | output (reason : String)
  | io (reason : String)
deriving DecidableEq, Repr

namespace Failure

def name : Failure → String
  | config _ => "Config"
  | script .. => "Script"
  | layout .. => "Layout"
  | compute _ => "Compute"
  | output _ => "Output"
  | io _ => "Io"

def message : Failure → String
  | config fault => s!"Configuration error: {fault.message}"
  | script line reason => s!"Script error at line {line}: {reason}"
  | layout line fault => s!"Layout error at line {line}: {fault.message}"
  | compute fault => s!"Layout computation failed: {fault.message}"
  | output reason => s!"Output error: {reason}"
  | io reason => s!"IO error: {reason}"

/-- Only a refused edit has a code of its own. -/
def exitCode : Failure → Nat
  | layout .. => 2
  | _ => 1

end Failure

end PaneGrid
