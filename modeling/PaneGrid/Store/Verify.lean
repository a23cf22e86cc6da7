import PaneGrid.Passing
import PaneGrid.Store.Basic

/-! The consistency check of a store: a proper binary tree hangs from its root, and every parent
link names the split that holds the node. -/

namespace PaneGrid

namespace Store

open Passing

/-- Pushes the children of `holder` onto the stack, the second one on top. -/
def pushChildren (s : Store) (holder : NodeId) (children stack : List NodeId) :
    Except LayoutFault (List NodeId) :=
  children.foldlM (fun stack child => do
    if (← s.linked child).parent ≠ some holder then throw (.parentMismatch child)
    return child :: stack) stack

section Checking

variable {m : Type → Type} [Monad m] [Passing m]

/-- Visits a stack of identities whose nodes are all stored. When as many nodes have been seen as
are stored, whatever is left on the stack has been seen before. -/
def verifyFrom (s : Store) : Nat → List NodeId → List NodeId → m Unit
  | _, _, [] => pure ()
  | 0, _, id :: _ => exceed id
  | limit + 1, seen, id :: stack =>
    if seen.contains id then fail (.sharedNode id)
    else do
      let n ← settle (s.linked id)
      let stack ← settle (s.pushChildren id n.children stack)
      s.verifyFrom limit (id :: seen) stack

def verifyUnder (s : Store) (limit : Nat) : m Unit := do
  let root ← settle (s.linked s.root)
  if root.parent ≠ none then fail (.parentMismatch s.root) else s.verifyFrom limit [] [s.root]

end Checking

def verify (s : Store) : Except LayoutFault Unit := s.verifyUnder s.nodes.size

end Store

end PaneGrid
