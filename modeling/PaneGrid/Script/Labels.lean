import PaneGrid.Identity

/-! Labels of the nodes that a replay has made: `L0`, `L1`, … for leaves and `S0`, `S1`, … for
splits, numbered in order of creation. -/

namespace PaneGrid.Script

structure Labels where
  /-- Latest first. -/
  entries : List (String × NodeId)
  leaves : Nat
  splits : Nat
deriving DecidableEq, Repr

namespace Labels

def empty : Labels := ⟨[], 0, 0⟩

def addLeaf (t : Labels) (id : NodeId) : Labels :=
  { t with entries := (s!"L{t.leaves}", id) :: t.entries, leaves := t.leaves + 1 }

def addSplit (t : Labels) (id : NodeId) : Labels :=
  { t with entries := (s!"S{t.splits}", id) :: t.entries, splits := t.splits + 1 }

def id? (t : Labels) (label : String) : Option NodeId :=
  (t.entries.find? (·.1 = label)).map Prod.snd

def label? (t : Labels) (id : NodeId) : Option String :=
  (t.entries.find? (·.2 = id)).map Prod.fst

/-- The label of a node; one that the replay did not make shows its identity. -/
def name (t : Labels) (id : NodeId) : String := (t.label? id).getD id.text

end Labels

end PaneGrid.Script
