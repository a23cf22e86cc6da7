import PaneGrid.Fault
import PaneGrid.Orientation

/-! Leaves and splits. Nodes refer to each other by identity; the parent link is kept beside the
child slots and can disagree with them in a broken store. -/

namespace PaneGrid

structure Leaf where
  id : NodeId
  parent : Option NodeId
  minWidth : Float
  minHeight : Float
  tag : Option ContentTag
deriving DecidableEq, Repr

def defaultMinSize : Float := 24.0

def defaultRatio : Float := 0.5

def Leaf.fresh (id : NodeId) : Leaf := ⟨id, none, defaultMinSize, defaultMinSize, none⟩

structure Split where
  id : NodeId
  parent : Option NodeId
  orientation : Orientation
  first : NodeId
  second : NodeId
  /-- Share of the region that the first child keeps. -/
  ratio : Float
deriving DecidableEq, Repr

namespace Split

/-- A split of two different children with a ratio in range; the ratio is looked at first. -/
def make (id : NodeId) (orientation : Orientation) (first second : NodeId) (ratio : Float) :
    Except LayoutFault Split := do
  checkRatio ratio
  if first = second then throw (.duplicateNode second)
  return ⟨id, none, orientation, first, second, ratio⟩

def siblingOf (s : Split) (child : NodeId) : Option NodeId :=
  if child = s.first then some s.second
  else if child = s.second then some s.first
  else none

def setRatio (s : Split) (ratio : Float) : Except LayoutFault Split := do
  checkRatio ratio
  return { s with ratio }

/-- Puts `new` into the slot of `old`, the first slot if both hold it. -/
def replaceChild (s : Split) (old new : NodeId) : Except LayoutFault Split :=
  if s.first = old then .ok { s with first := new }
  else if s.second = old then .ok { s with second := new }
  else .error (.childNotFound s.id old)

end Split

inductive Node where
  | leaf (leaf : Leaf)
  | split (split : Split)
deriving DecidableEq, Repr

namespace Node

def id : Node → NodeId
  | leaf l => l.id
  | split s => s.id

def parent : Node → Option NodeId
  | leaf l => l.parent
  | split s => s.parent

def setParent (parent : Option NodeId) : Node → Node
  | leaf l => leaf { l with parent }
  | split s => split { s with parent }

def children : Node → List NodeId
  | leaf _ => []
  | split s => [s.first, s.second]

def asLeaf : Node → Option Leaf
  | leaf l => some l
  | split _ => none

def asSplit : Node → Option Split
  | leaf _ => none
  | split s => some s

def isLeaf (n : Node) : Bool := n.asLeaf.isSome

def isSplit (n : Node) : Bool := n.asSplit.isSome

/-- Two snapshots of one node: same kind and same identity, whatever else changed. -/
def same (a b : Node) : Bool := a.isLeaf = b.isLeaf && a.id = b.id

@[simp] theorem id_setParent (n : Node) (p : Option NodeId) : (n.setParent p).id = n.id := by
  cases n <;> rfl

@[simp] theorem parent_setParent (n : Node) (p : Option NodeId) : (n.setParent p).parent = p := by
  cases n <;> rfl

end Node

end PaneGrid
