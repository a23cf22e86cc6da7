import PaneGrid.Change
import PaneGrid.Store.Editing

/-! Requests to a pane tree, and what each answers and announces. A request is checked as a whole
before the store is asked to write, and the store checks it again; the ratio is looked at before
anything else. -/

namespace PaneGrid

inductive Edit where
  /-- Split a leaf; `id` becomes the identity of the new split. -/
  | split (leaf : NodeId) (orientation : Orientation) (ratio : Float) (added : Leaf) (id : NodeId)
  | resize (split : NodeId) (ratio : Float)
  | remove (leaf : NodeId)
  | retag (leaf : NodeId) (tag : Option ContentTag)
  /-- Announce the current root as if it had just been added. -/
  | announce
deriving DecidableEq, Repr

inductive Receipt where
  | split (split : Split)
  | removed (leaf : Leaf)
  | done
deriving DecidableEq, Repr

namespace Store

def performSplit (leaf : NodeId) (orientation : Orientation) (ratio : Float) (added : Leaf)
    (id : NodeId) : Editing (Receipt × Option Change) := do
  Editing.read fun _ => checkRatio ratio
  let _ ← Editing.read fun s => s.leaf leaf
  if (← get).isUsed added.id then throw (.duplicateNode added.id)
  let made ← splitLeaf leaf orientation ratio added id
  let entered ← Editing.read fun s => s.leaf added.id
  return (.split made, some ⟨.add, some (.leaf entered)⟩)

def performResize (split : NodeId) (ratio : Float) : Editing (Receipt × Option Change) := do
  Editing.read fun _ => checkRatio ratio
  let _ ← Editing.read fun s => s.split split
  let updated ← setRatio split ratio
  return (.done, some ⟨.ratioChanged, some (.split updated)⟩)

def performRemove (leaf : NodeId) : Editing (Receipt × Option Change) := do
  let found ← Editing.read fun s => s.leaf leaf
  if found.parent.isNone then throw (.cannotRemoveRoot leaf)
  let detached ← removeLeaf leaf
  return (.removed detached, some ⟨.remove, some (.leaf detached)⟩)

/-- Runs a request; the change is what listeners are to be told. A new tag is no structural change
and goes unannounced. -/
def perform : Edit → Editing (Receipt × Option Change)
  | .split leaf orientation ratio added id => performSplit leaf orientation ratio added id
  | .resize split ratio => performResize split ratio
  | .remove leaf => performRemove leaf
  | .retag leaf tag => do
    setTag leaf tag
    return (.done, none)
  | .announce => do
    let root := (← get).node? (← get).root
    return (.done, root.map fun n => ⟨.add, some n⟩)

end Store

end PaneGrid
