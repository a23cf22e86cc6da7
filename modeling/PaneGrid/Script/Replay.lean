import PaneGrid.Edit
import PaneGrid.Flatten
import PaneGrid.Script.Instruction
import PaneGrid.Script.Labels

/-! Replaying a script on a fresh tree. The first line that fails ends the replay and leaves the
tree and the labels as the lines before it made them. -/

namespace PaneGrid.Script

structure Replay where
  store : Store
  settings : Settings
  labels : Labels
  /-- Identities for new nodes, in the order in which they are drawn. -/
  supply : Nat → NodeId
  drawn : Nat

abbrev Replaying := EStateM Failure Replay

namespace Replay

/-- A single leaf labelled `L0`. -/
def start (settings : Settings) (supply : Nat → NodeId) : Replay :=
  let root := supply 0
  { store := .ofLeaf (settings.newLeaf root)
    settings
    labels := Labels.empty.addLeaf root
    supply
    drawn := 1 }

def draw : Replaying NodeId := do
  let r ← get
  set { r with drawn := r.drawn + 1 }
  return r.supply r.drawn

def resolve (line : Nat) (label : String) : Replaying NodeId := do
  match (← get).labels.id? label with
  | some id => return id
  | none => throw (.script line (LineFault.unknownLabel label).message)

def edit (line : Nat) (request : Edit) : Replaying Receipt := do
  let r ← get
  match (Store.perform request).run r.store with
  | .ok (receipt, _) store =>
    set { r with store }
    return receipt
  | .error fault store =>
    set { r with store }
    throw (.layout line fault)

def apply (line : Line) : Replaying Unit := do
  match line.instruction with
  | .split label orientation ratio =>
    let leaf ← resolve line.number label
    let settings := (← get).settings
    let added ← draw
    let split ← draw
    let _ ← edit line.number
      (.split leaf orientation (ratio.getD settings.ratio) (settings.newLeaf added) split)
    modify fun r => { r with labels := (r.labels.addLeaf added).addSplit split }
  | .resize label ratio =>
    let split ← resolve line.number label
    let _ ← edit line.number (.resize split ratio)
  | .remove label =>
    let leaf ← resolve line.number label
    let _ ← edit line.number (.remove leaf)

def run (lines : List Line) : Replaying Unit := lines.forM apply

def layout (r : Replay) : Except Failure Layout := r.store.computeLayout.mapError .compute

def name (r : Replay) (id : NodeId) : String := r.labels.name id

/-- The ratio of a split that is still in the tree. -/
def ratio? (r : Replay) (id : NodeId) : Option Float :=
  ((r.store.node? id).bind Node.asSplit).map Split.ratio

end Replay

end PaneGrid.Script
