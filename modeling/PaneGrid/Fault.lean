import PaneGrid.Decimal.Style
import PaneGrid.Identity

/-! Why an edit or a computation on panes is refused. -/

namespace PaneGrid

inductive FaultKind where
  | range
  | nullArgument
  | notFound
  | invalidOperation
deriving DecidableEq, Repr

def FaultKind.name : FaultKind → String
  | range => "Range"
  | nullArgument => "NullArgument"
  | notFound => "NotFound"
  | invalidOperation => "InvalidOperation"

inductive LayoutFault where
  | ratioOutOfRange (ratio : Float)
  | missingArgument (name : String)
  | leafNotFound (id : NodeId)
  | splitNotFound (id : NodeId)
  | cannotRemoveRoot (leaf : NodeId)
  | childNotFound (split child : NodeId)
  | duplicateNode (id : NodeId)
  | sharedNode (id : NodeId)
  | danglingNode (id : NodeId)
  | parentMismatch (id : NodeId)
  | duplicateCell (row column : Nat)
  | unmappedCell (row column : Nat)
deriving DecidableEq, Repr

namespace LayoutFault

def name : LayoutFault → String
  | ratioOutOfRange _ => "RatioOutOfRange"
  | missingArgument _ => "MissingArgument"
  | leafNotFound _ => "LeafNotFound"
  | splitNotFound _ => "SplitNotFound"
  | cannotRemoveRoot _ => "CannotRemoveRoot"
  | childNotFound .. => "ChildNotFound"
  | duplicateNode _ => "DuplicateNode"
  | sharedNode _ => "SharedNode"
  | danglingNode _ => "DanglingNode"
  | parentMismatch _ => "ParentMismatch"
  | duplicateCell .. => "DuplicateCell"
  | unmappedCell .. => "UnmappedCell"

def kind : LayoutFault → FaultKind
  | ratioOutOfRange _ => .range
  | missingArgument _ => .nullArgument
  | leafNotFound _ | splitNotFound _ => .notFound
  | _ => .invalidOperation

/-- The store itself is broken, as opposed to a request that was refused. -/
def isConsistencyFailure : LayoutFault → Bool
  | sharedNode _ | danglingNode _ | parentMismatch _ | duplicateCell .. | unmappedCell .. => true
  | _ => false

def message : LayoutFault → String
  | ratioOutOfRange r =>
    s!"invalid split ratio: {plainNumber.render r} (must be between 0.0 and 1.0)"
  | missingArgument name => s!"missing required argument: {name}"
  | leafNotFound id => s!"leaf not found: {id.text}"
  | splitNotFound id => s!"split not found: {id.text}"
  | cannotRemoveRoot leaf => s!"cannot remove the root leaf {leaf.text}"
  | childNotFound split child => s!"{child.text} is not a child of split {split.text}"
  | duplicateNode id => s!"node ID already used in this tree: {id.text}"
  | sharedNode id => s!"shared node detected: {id.text}"
  | danglingNode id => s!"dangling child reference: {id.text}"
  | parentMismatch id => s!"parent link of {id.text} does not match its holder"
  | duplicateCell row column => s!"two leaves mapped to grid cell ({row}, {column})"
  | unmappedCell row column => s!"no leaf mapped at grid cell ({row}, {column})"

end LayoutFault

/-- A ratio lies between 0 and 1, ends included; NaN does not. -/
def inUnitRange (ratio : Float) : Bool := 0.0 ≤ ratio && ratio ≤ 1.0

def checkRatio (ratio : Float) : Except LayoutFault Unit :=
  if inUnitRange ratio then .ok () else .error (.ratioOutOfRange ratio)

end PaneGrid
