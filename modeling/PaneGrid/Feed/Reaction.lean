import PaneGrid.Edit

/-! What a listener does when it is told of a change, as a value: a sequence of requests, each with
a continuation that takes the answer. A listener can have a state of its own. The journal is longer
at every call than at the one before, so whatever that state is by then, it is a function of the
journal, and a reaction that looks back at it can go on as the state has it. -/

namespace PaneGrid

structure ListenerId where
  number : Nat
deriving DecidableEq, Repr

def ListenerId.text (id : ListenerId) : String := s!"ListenerId({id.number})"

structure ChannelId where
  number : Nat
deriving DecidableEq, Repr

inductive JournalEntry where
  /-- The edit behind this change has just taken effect. -/
  | committed (change : Change)
  /-- A listener is called. -/
  | called (listener : ListenerId) (change : Change)
  | noted (listener : ListenerId) (text : String)
deriving DecidableEq, Repr

inductive Reaction where
  | done
  /-- Leaves a note in the journal. -/
  | note (text : String) (next : Reaction)
  /-- Looks at the tree as it is by then. -/
  | look (next : Store → Reaction)
  /-- Looks back at the journal as it is by then. -/
  | remember (next : List JournalEntry → Reaction)
  /-- An edit of its own, announced before the reaction goes on. -/
  | edit (request : Edit) (next : Except LayoutFault Receipt → Reaction)
  | listen (listener : ListenerId → Change → Reaction) (next : ListenerId → Reaction)
  | unlisten (id : ListenerId) (next : Bool → Reaction)
  | subscribe (next : ChannelId → Reaction)
  | hangUp (channel : ChannelId) (next : Reaction)

/-- A listener is told its own handle along with each change. -/
abbrev Listener := ListenerId → Change → Reaction

end PaneGrid
