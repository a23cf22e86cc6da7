import PaneGrid.Node

/-! What is told about an edit that took effect. -/

namespace PaneGrid

inductive ChangeAction where
  | add
  | remove
  | ratioChanged
deriving DecidableEq, Repr

def ChangeAction.name : ChangeAction → String
  | add => "Add"
  | remove => "Remove"
  | ratioChanged => "RatioChanged"

/-- The node is a snapshot from the moment of the change. -/
structure Change where
  action : ChangeAction
  node : Option Node
deriving DecidableEq, Repr

end PaneGrid
