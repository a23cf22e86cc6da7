import PaneGrid.Store.Basic

/-! Walks over a store from its root. Each is bounded by the number of stored nodes, which is
enough for every store in which no node is reached twice. -/

namespace PaneGrid

namespace Store

/-- Pops identities from a stack and replaces each by its children; unknown ones are skipped. -/
def preorderFrom (s : Store) : Nat → List NodeId → List Node
  | 0, _ | _, [] => []
  | fuel + 1, id :: stack =>
    match s.node? id with
    | none => s.preorderFrom fuel stack
    | some n => n :: s.preorderFrom fuel (n.children ++ stack)

/-- A node, then its first subtree, then its second one. A stored split pushes two identities, so
no more than `2 * size + 1` are ever popped. -/
def preorder (s : Store) : List Node := s.preorderFrom (2 * s.nodes.size + 1) [s.root]

/-- The first node in pre-order that passes the test. -/
def find? (s : Store) (p : Node → Bool) : Option Node := s.preorder.find? p

def leafIds (s : Store) : List NodeId := (s.preorder.filter Node.isLeaf).map Node.id

def leafCount (s : Store) : Nat := s.leafIds.length

def depthFrom (s : Store) : Nat → NodeId → Nat
  | 0, _ => 0
  | fuel + 1, id =>
    match s.node? id with
    | some (.split p) => 1 + max (s.depthFrom fuel p.first) (s.depthFrom fuel p.second)
    | _ => 0

/-- The number of split levels. -/
def depth (s : Store) : Nat := s.depthFrom s.nodes.size s.root

end Store

end PaneGrid
