import PaneGrid.Fault
import PaneGrid.Grid.Area

/-! What a pass over a store asks of the monad that it runs in: to take over what the store answers,
to say what becomes of a recursion that has come to its limit, and to listen to what the pass tells
of its work. -/

namespace PaneGrid

/-- A piece of work of a pass. -/
inductive Visit where
  | measured (id : NodeId) (span : Span)
  /-- A node has been handed its region. -/
  | placed (id : NodeId) (region : Area)
  /-- A node has been handed the origin of its region alone. -/
  | entered (id : NodeId) (row column : Nat)
  /-- A walk upwards has come to this holder. -/
  | climbed (holder : NodeId)
deriving DecidableEq, Repr

class Passing (m : Type → Type) where
  settle {α : Type} (answer : Except LayoutFault α) : m α
  /-- The node is too deep for the limit of the recursion. -/
  exceed {α : Type} (id : NodeId) : m α
  tell (visit : Visit) : m Unit

namespace Passing

def fail {m : Type → Type} [Passing m] {α : Type} (fault : LayoutFault) : m α :=
  settle (.error fault)

/-- Nobody listens, and too deep is what lies deeper than there are nodes: the way to it meets some
node twice. -/
@[default_instance]
instance : Passing (Except LayoutFault) where
  settle answer := answer
  exceed id := .error (.sharedNode id)
  tell _ := .ok ()

end Passing

end PaneGrid
