import PaneGrid.Flatten
import PaneGrid.Store.Traversal
import PaneGrid.Workspace

/-! A view of a workspace that keeps the latest layout ready. It learns of edits made behind its
back through a channel of its own. -/

namespace PaneGrid

/-- A checked request to split one page. -/
structure SplitCommand where
  page : NodeId
  ratio : Float
  orientation : Orientation
deriving DecidableEq, Repr

/-- The page must be given, then the ratio must be in range. -/
def SplitCommand.make (page : Option NodeId) (ratio : Float) (orientation : Orientation) :
    Except LayoutFault SplitCommand := do
  let some page := page | throw (.missingArgument "page")
  checkRatio ratio
  return ⟨page, ratio, orientation⟩

structure Container where
  workspace : Workspace
  channel : ChannelId
  layout : Layout
  /-- Changes were drained that the layout does not show yet. -/
  stale : Bool

abbrev Viewing := EStateM LayoutFault Container

namespace Container

/-- Subscribes to a workspace and computes the first layout. -/
def ofWorkspace (w : Workspace) : Except LayoutFault Container := do
  let (channel, w) := w.subscribe
  return ⟨w, channel, ← w.store.computeLayout, false⟩

def pageIds (c : Container) : List NodeId := c.layout.pages.map Page.id

def perform (request : Edit) : Viewing Receipt := do
  let c ← get
  let (answer, workspace) := c.workspace.perform request
  set { c with workspace }
  match answer with
  | .ok receipt => return receipt
  | .error fault => throw fault

/-- Drains the channel and computes the layout anew if anything has arrived since the last
computation that succeeded. Tells whether it was computed. -/
def refresh : Viewing Bool := do
  let c ← get
  let (pending, workspace) := c.workspace.drain c.channel
  let stale := c.stale || !(pending.getD []).isEmpty
  set { c with workspace, stale }
  if !stale then return false
  match workspace.store.computeLayout with
  | .error fault => throw fault
  | .ok layout =>
    set { c with workspace, layout, stale := false }
    return true

/-- Splits a page of the tree with a fresh page of the sizes in the settings. -/
def split (command : SplitCommand) (added splitId : NodeId) : Viewing Receipt := do
  let w := (← get).workspace
  let isPage (n : Node) : Bool := n.isLeaf && n.id = command.page
  let some page := w.store.find? isPage | throw (.leafNotFound command.page)
  let leaf := w.settings.newLeaf added
  let receipt ← perform (.split page.id command.orientation command.ratio leaf splitId)
  let _ ← refresh
  return receipt

def removePage (page : NodeId) : Viewing Unit := do
  let _ ← perform (.remove page)
  let _ ← refresh

def resize (split : NodeId) (ratio : Float) : Viewing Unit := do
  let _ ← perform (.resize split ratio)
  let _ ← refresh

end Container

end PaneGrid
