import PaneGrid.Store.Basic

/-! Edits of a store. An edit is a program over the store that keeps whatever it wrote when it
fails, so each one makes its checks before its first write. What is looked up again after a write
can no longer be missing. -/

namespace PaneGrid

abbrev Editing := EStateM LayoutFault Store

namespace Editing

/-- Reads from the store, or fails as the reading does. -/
def read {α : Type} (f : Store → Except LayoutFault α) : Editing α := do
  match f (← get) with
  | .ok a => return a
  | .error e => throw e

end Editing

namespace Store

/-- Hands the place of `old` to `new`: a slot of its holder, or the root. -/
def replaceIn (holder : Option NodeId) (old new : NodeId) : Editing Unit := do
  match holder with
  | none => modify fun s => { s with root := new }
  | some h =>
    let changed ← Editing.read fun s => do (← s.linkedSplit h).replaceChild old new
    modify fun s => s.put (.split changed)

/-- Puts a new split in the place of a leaf, with the leaf first and `added` second. -/
def splitLeaf (leafId : NodeId) (orientation : Orientation) (ratio : Float) (added : Leaf)
    (splitId : NodeId) : Editing Split := do
  let leaf ← Editing.read fun s => s.leaf leafId
  if (← get).isUsed added.id then throw (.duplicateNode added.id)
  let made ← Editing.read fun _ => Split.make splitId orientation leafId added.id ratio
  replaceIn leaf.parent leafId splitId
  let split := (Node.split made).setParent leaf.parent
  modify fun s =>
    ((s.setParent leafId (some splitId)).put (.leaf { added with parent := some splitId })).put
      split
  let some snapshot := split.asSplit | throw (.danglingNode splitId)
  return snapshot

/-- Takes a leaf out for good and hands it back without its link. -/
def withdraw (leafId : NodeId) : Editing Leaf := do
  let found := (← get).node? leafId
  modify fun s => s.retire leafId
  match found.map (Node.setParent none) with
  | some (.leaf detached) => return detached
  | _ => throw (.leafNotFound leafId)

/-- Takes a leaf and its parent split out; the sibling moves up into the place of the split. -/
def removeLeaf (leafId : NodeId) : Editing Leaf := do
  let leaf ← Editing.read fun s => s.leaf leafId
  let some parentId := leaf.parent | throw (.cannotRemoveRoot leafId)
  let .split parent ← Editing.read fun s => s.linked parentId | throw (.parentMismatch leafId)
  let some sibling := parent.siblingOf leafId | throw (.parentMismatch leafId)
  let _ ← Editing.read fun s => s.linked sibling
  replaceIn parent.parent parentId sibling
  modify fun s => (s.setParent sibling parent.parent).retire parentId
  withdraw leafId

def setRatio (splitId : NodeId) (ratio : Float) : Editing Split := do
  let split ← Editing.read fun s => do (← s.split splitId).setRatio ratio
  modify fun s => s.put (.split split)
  return split

def setTag (leafId : NodeId) (tag : Option ContentTag) : Editing Unit := do
  let leaf ← Editing.read fun s => s.leaf leafId
  modify fun s => s.put (.leaf { leaf with tag })

end Store

end PaneGrid
