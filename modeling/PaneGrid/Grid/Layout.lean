import PaneGrid.Grid.Area
import PaneGrid.Identity

/-! The flat grid of a pane tree: its tracks, a page for every leaf and a splitter for every split,
and two views of which cells they cover. -/

namespace PaneGrid

inductive Track where
  | content
  | splitter
deriving DecidableEq, Repr

structure Page where
  id : NodeId
  area : Area
deriving DecidableEq, Repr

structure Splitter where
  id : NodeId
  area : Area
  orientation : Orientation
deriving DecidableEq, Repr

inductive Occupant where
  | page (id : NodeId)
  | splitter (id : NodeId)
deriving DecidableEq, Repr

def Occupant.id : Occupant → NodeId
  | page id | splitter id => id

structure Layout where
  rows : List Track
  columns : List Track
  pages : List Page
  splitters : List Splitter
deriving DecidableEq, Repr

namespace Layout

def empty : Layout := ⟨[], [], [], []⟩

def withTracks (rows columns : Nat) : Layout :=
  { empty with
    rows := List.replicate rows .content
    columns := List.replicate columns .content }

def rowCount (l : Layout) : Nat := l.rows.length

def columnCount (l : Layout) : Nat := l.columns.length

/-- Makes a row a splitter track; outside the grid nothing happens. -/
def markRow (l : Layout) (row : Nat) : Layout := { l with rows := l.rows.set row .splitter }

def markColumn (l : Layout) (column : Nat) : Layout :=
  { l with columns := l.columns.set column .splitter }

def pushPage (l : Layout) (page : Page) : Layout := { l with pages := l.pages ++ [page] }

def pushSplitter (l : Layout) (splitter : Splitter) : Layout :=
  { l with splitters := l.splitters ++ [splitter] }

/-- Adds a splitter and marks its track. -/
def placeSplitter (l : Layout) (splitter : Splitter) : Layout :=
  let marked := match splitter.orientation with
    | .vertical => l.markColumn splitter.area.column
    | .horizontal => l.markRow splitter.area.row
  marked.pushSplitter splitter

def page? (l : Layout) (id : NodeId) : Option Page := l.pages.find? (·.id = id)

def splitter? (l : Layout) (id : NodeId) : Option Splitter := l.splitters.find? (·.id = id)

/-- Everything that covers a cell, pages first. -/
def occupants (l : Layout) (row column : Nat) : List Occupant :=
  (l.pages.filter (·.area.contains row column)).map (.page ·.id) ++
    (l.splitters.filter (·.area.contains row column)).map (.splitter ·.id)

def occupant? (l : Layout) (row column : Nat) : Option Occupant :=
  match l.occupants row column with
  | [only] => some only
  | _ => none

def areas (l : Layout) : List Area := l.pages.map Page.area ++ l.splitters.map Splitter.area

/-- Sizes and indices are machine words. -/
def wordBound : Nat := UInt64.size

/-- As many words as one array can hold: its bytes are counted in a signed word. -/
def capacity : Nat := (wordBound / 2 - 1) / 8

/-- What ends the program. -/
inductive Crash where
  | tooManyCells (cells : Nat)
  /-- The array has nothing at this index. -/
  | noSuchIndex (i : Nat)
deriving DecidableEq, Repr

/-- Why a count ends before all cells are counted. -/
inductive Halt where
  /-- A cell lies outside the grid. -/
  | outside
  | crash (cause : Crash)
deriving DecidableEq, Repr

/-- A zero for every cell of a grid, as long as their number is a word. -/
def blankCounts (rows columns : Nat) : Except Crash (Array Nat) :=
  let cells := rows * columns % wordBound
  if cells ≤ capacity then .ok (Array.replicate cells 0) else .error (.tooManyCells cells)

/-- Where a cell is counted: row after row. -/
def cellIndex (columns : Nat) (cell : Nat × Nat) : Nat :=
  (cell.1 * columns + cell.2) % wordBound

/-- Counts a cell if it lies in the grid. The array is only written where it has an element. -/
def countCell (rows columns : Nat) (counts : Array Nat) (cell : Nat × Nat) :
    Except Halt (Array Nat) :=
  if rows ≤ cell.1 ∨ columns ≤ cell.2 then .error .outside
  else
    let i := cellIndex columns cell
    if h : i < counts.size then .ok (counts.set i (counts[i] + 1))
    else .error (.crash (.noSuchIndex i))

/-- Counts the cells of all areas, one after another. -/
def countCells (l : Layout) (blank : Array Nat) : Except Halt (Array Nat) := do
  let mut counts := blank
  for area in l.areas do
    for row in [area.row:area.row + area.rowSpan] do
      for column in [area.column:area.column + area.columnSpan] do
        counts ← countCell l.rowCount l.columnCount counts (row, column)
  return counts

/-- Whether every cell is covered exactly once and nothing lies outside the grid, if the count of
the cells comes to an answer. -/
def coverage (l : Layout) : Except Crash Bool := do
  match l.countCells (← blankCounts l.rowCount l.columnCount) with
  | .ok counts => return counts.all (· = 1)
  | .error .outside => return false
  | .error (.crash cause) => throw cause

def isFullyCovered (l : Layout) : Bool :=
  match l.coverage with
  | .ok covered => covered
  | .error _ => false

end Layout

end PaneGrid
