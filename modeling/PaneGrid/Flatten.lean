import PaneGrid.Grid.Layout
import PaneGrid.Store.Verify
import Std.Data.ExtTreeMap

/-! A pane tree flattened into a grid, in three passes over a verified store. The first measures
every subtree from below. The second hands every node a region from above, draws the splitters and
gives each leaf one provisional cell. The third lets each leaf grow into what deeper siblings leave
free, found by walking from the leaf to the root.

The recursions are bounded by the number of stored nodes: a longer path meets some node twice. All
of this is written for any monad that passes can run in. -/

namespace PaneGrid

/-- Spans of nodes, each measured once. -/
structure SpanTable where
  entries : Std.ExtTreeMap NodeId Span
deriving Repr

namespace SpanTable

def empty : SpanTable := ⟨∅⟩

def insert (t : SpanTable) (id : NodeId) (span : Span) : SpanTable := ⟨t.entries.insert id span⟩

def get (t : SpanTable) (id : NodeId) : Except LayoutFault Span :=
  match t.entries[id]? with
  | some span => .ok span
  | none => .error (.danglingNode id)

end SpanTable

/-- Which leaf starts at a cell. -/
structure CellMap where
  entries : List ((Nat × Nat) × NodeId)
deriving DecidableEq, Repr

namespace CellMap

def empty : CellMap := ⟨[]⟩

def get? (m : CellMap) (row column : Nat) : Option NodeId :=
  (m.entries.find? (·.1 = (row, column))).map Prod.snd

def insert (m : CellMap) (row column : Nat) (id : NodeId) : Except LayoutFault CellMap :=
  match m.get? row column with
  | some _ => .error (.duplicateCell row column)
  | none => .ok ⟨((row, column), id) :: m.entries⟩

end CellMap

/-- How far a leaf may grow, as known on the way up. An axis closes once the leaf lies before a
splitter across it. -/
structure Slack where
  growth : Span
  rowsOpen : Bool
  columnsOpen : Bool
deriving DecidableEq, Repr

namespace Slack

def start : Slack := ⟨⟨0, 0⟩, true, true⟩

def isClosed (k : Slack) : Bool := !k.rowsOpen && !k.columnsOpen

/-- One step up: across the axis of the split a node grows by what the sibling has more, along it
only a second child stays open. -/
def climb (k : Slack) (orientation : Orientation) (isFirst : Bool) (own other : Span) : Slack :=
  match orientation with
  | .vertical =>
    { growth :=
        if k.rowsOpen then ⟨k.growth.rows + (other.rows - own.rows), k.growth.columns⟩
        else k.growth
      rowsOpen := k.rowsOpen
      columnsOpen := k.columnsOpen && !isFirst }
  | .horizontal =>
    { growth :=
        if k.columnsOpen then ⟨k.growth.rows, k.growth.columns + (other.columns - own.columns)⟩
        else k.growth
      rowsOpen := k.rowsOpen && !isFirst
      columnsOpen := k.columnsOpen }

end Slack

namespace Store

open Passing

section Passes

variable {m : Type → Type} [Monad m] [Passing m]

def measure (s : Store) : Nat → NodeId → SpanTable → m (Span × SpanTable)
  | 0, id, _ => exceed id
  | limit + 1, id, spans => do
    match ← settle (s.linked id) with
    | .leaf _ =>
      tell (.measured id .unit)
      return (.unit, spans.insert id .unit)
    | .split p =>
      let (first, spans) ← s.measure limit p.first spans
      let (second, spans) ← s.measure limit p.second spans
      let span := Span.join p.orientation first second
      tell (.measured id span)
      return (span, spans.insert id span)

/-- Draws the subtree at `id` into its region, pages as single cells. -/
def assignPositions (s : Store) (spans : SpanTable) : Nat → NodeId → Area → Layout → m Layout
  | 0, id, _, _ => exceed id
  | limit + 1, id, region, layout => do
    tell (.placed id region)
    match ← settle (s.linked id) with
    | .leaf _ => return layout.pushPage ⟨id, .unit region.row region.column⟩
    | .split p =>
      let cut := region.cut p.orientation (← settle (spans.get p.first))
      let drawn := layout.placeSplitter ⟨id, cut.splitter, p.orientation⟩
      let drawn ← s.assignPositions spans limit p.first cut.first drawn
      s.assignPositions spans limit p.second cut.second drawn

/-- Collects the origin of every leaf, without regions. -/
def leafCells (s : Store) (spans : SpanTable) : Nat → NodeId → Nat → Nat → CellMap → m CellMap
  | 0, id, _, _, _ => exceed id
  | limit + 1, id, row, column, cells => do
    tell (.entered id row column)
    match ← settle (s.linked id) with
    | .leaf _ => settle (cells.insert row column id)
    | .split p =>
      let first ← settle (spans.get p.first)
      let cells ← s.leafCells spans limit p.first row column cells
      match p.orientation with
      | .vertical => s.leafCells spans limit p.second row (column + first.columns + 1) cells
      | .horizontal => s.leafCells spans limit p.second (row + first.rows + 1) column cells

/-- Follows parent links upwards from `child` until both axes are closed or the root is passed. -/
def growthFrom (s : Store) (spans : SpanTable) : Nat → NodeId → Option NodeId → Slack → m Span
  | _, _, none, slack => pure slack.growth
  | 0, child, some _, _ => exceed child
  | limit + 1, child, some holder, slack => do
    tell (.climbed holder)
    let .split p ← settle (s.linked holder) | fail (.parentMismatch child)
    let some sibling := p.siblingOf child | fail (.parentMismatch child)
    let own ← settle (spans.get child)
    let other ← settle (spans.get sibling)
    let slack := slack.climb p.orientation (p.first = child) own other
    if slack.isClosed then return slack.growth
    s.growthFrom spans limit holder p.parent slack

def leafGrowth (s : Store) (spans : SpanTable) (limit : Nat) (leaf : NodeId) : m Span := do
  let n ← settle (s.linked leaf)
  s.growthFrom spans limit leaf n.parent .start

/-- The final page at the origin of a provisional one. -/
def grownPage (s : Store) (spans : SpanTable) (cells : CellMap) (limit : Nat) (page : Page) :
    m Page := do
  let (row, column) := (page.area.row, page.area.column)
  let some leaf := cells.get? row column | fail (.unmappedCell row column)
  let growth ← s.leafGrowth spans limit leaf
  return ⟨leaf, ⟨row, column, 1 + growth.rows, 1 + growth.columns⟩⟩

/-- The check and all passes, with one limit on the depth of their recursions. -/
def layoutUnder (s : Store) (limit : Nat) : m Layout := do
  s.verifyUnder limit
  let (_, spans) ← s.measure limit s.root .empty
  let span ← settle (spans.get s.root)
  let blank := Layout.withTracks span.rows span.columns
  let drawn ← s.assignPositions spans limit s.root ⟨0, 0, span.rows, span.columns⟩ blank
  let cells ← s.leafCells spans limit s.root 0 0 .empty
  return { drawn with pages := ← drawn.pages.mapM (s.grownPage spans cells limit) }

end Passes

/-- The grid of the tree in a store. Fails exactly when the store is inconsistent. -/
def computeLayout (s : Store) : Except LayoutFault Layout := s.layoutUnder s.nodes.size

end Store

end PaneGrid
