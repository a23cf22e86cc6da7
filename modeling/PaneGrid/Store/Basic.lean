import PaneGrid.Store.Table

/-! The store of one pane tree: its nodes, the identities that have left it, and the root. -/

namespace PaneGrid

structure Store where
  nodes : NodeTable
  /-- Identities of removed nodes; they are never accepted again. -/
  retired : List NodeId
  root : NodeId
deriving Repr

namespace Store

/-- The tree whose only region is `root`. -/
def ofLeaf (root : Leaf) : Store :=
  ⟨.put .empty (.leaf { root with parent := none }), [], root.id⟩

def node? (s : Store) (id : NodeId) : Option Node := s.nodes.find? id

def contains (s : Store) (id : NodeId) : Bool := (s.node? id).isSome

/-- The identity belongs to a node of this tree, current or removed. -/
def isUsed (s : Store) (id : NodeId) : Bool := s.contains id || s.retired.contains id

def leaf (s : Store) (id : NodeId) : Except LayoutFault Leaf :=
  match (s.node? id).bind Node.asLeaf with
  | some l => .ok l
  | none => .error (.leafNotFound id)

def split (s : Store) (id : NodeId) : Except LayoutFault Split :=
  match (s.node? id).bind Node.asSplit with
  | some p => .ok p
  | none => .error (.splitNotFound id)

/-- Follows a link inside the tree. -/
def linked (s : Store) (id : NodeId) : Except LayoutFault Node :=
  match s.node? id with
  | some n => .ok n
  | none => .error (.danglingNode id)

/-- Follows a link to a split. -/
def linkedSplit (s : Store) (id : NodeId) : Except LayoutFault Split :=
  match (s.node? id).bind Node.asSplit with
  | some p => .ok p
  | none => .error (.danglingNode id)

def put (s : Store) (n : Node) : Store := { s with nodes := s.nodes.put n }

/-- Sets a parent link, unchecked; nothing happens to an unknown node. -/
def setParent (s : Store) (id : NodeId) (parent : Option NodeId) : Store :=
  match s.node? id with
  | some n => s.put (n.setParent parent)
  | none => s

/-- Drops a node for good. -/
def retire (s : Store) (id : NodeId) : Store :=
  { s with nodes := s.nodes.erase id, retired := id :: s.retired }

theorem node?_put (s : Store) (n : Node) (key : NodeId) :
    (s.put n).node? key = if key = n.id then some n else s.node? key :=
  NodeTable.find?_put s.nodes n key

theorem node?_retire (s : Store) (id key : NodeId) :
    (s.retire id).node? key = if key = id then none else s.node? key :=
  NodeTable.find?_erase s.nodes id key

theorem node?_setParent (s : Store) (id : NodeId) (parent : Option NodeId) (key : NodeId) :
    (s.setParent id parent).node? key =
      if key = id then (s.node? id).map (Node.setParent parent) else s.node? key := by
  unfold setParent
  cases h : s.node? id with
  | none => by_cases hk : key = id <;> simp_all
  | some n =>
    have hid : n.id = id := NodeTable.id_of_find? h
    simp [node?_put, hid]

end Store

end PaneGrid
