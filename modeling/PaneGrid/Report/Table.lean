import PaneGrid.Script.Replay
import PaneGrid.Text.Blank

/-! A layout as text for people: a summary of its tracks, a map of its cells, and one line for every
page and every splitter. -/

namespace PaneGrid.Report

open Script (Replay)

def padded (width : Nat) (text : String) : String :=
  text ++ String.ofList (List.replicate (width - text.length) ' ')

/-- The longest text, but no less than `least`. -/
def widest (least : Nat) (texts : List String) : Nat := (texts.map String.length).foldl max least

def trackName : Track → String
  | .content => "content"
  | .splitter => "splitter"

def trackSummary (tracks : List Track) : String := " ".intercalate (tracks.map trackName)

/-- Who covers a cell; a cell with no single occupant shows a question mark. -/
def cellName (r : Replay) (l : Layout) (row column : Nat) : String :=
  match l.occupant? row column with
  | some occupant => r.name occupant.id
  | none => "?"

def cellNames (r : Replay) (l : Layout) : List (List String) :=
  (List.range l.rowCount).map fun row =>
    (List.range l.columnCount).map fun column => cellName r l row column

/-- One line for every row of cells, with every name as wide as the widest. -/
def mapLines (r : Replay) (l : Layout) : List String :=
  let names := cellNames r l
  let width := widest 1 names.flatten
  names.map fun row =>
    String.ofList (trimRight (" ".intercalate (row.map (padded width))).toList)

/-- Cells of one table line, each under its heading. -/
def columns (width : Nat) (name : String) (cells : List String) : String :=
  let cells := cells.zip [3, 3, 7, 7, 11]
  "  ".intercalate (padded width name :: cells.map fun (text, w) => padded w text)

def areaCells (a : Area) : List String := [a.row, a.column, a.rowSpan, a.columnSpan].map toString

def areaHeadings : List String := ["ROW", "COL", "ROWSPAN", "COLSPAN"]

def nameWidth (r : Replay) (l : Layout) : Nat :=
  widest 8 (l.pages.map (fun p => r.name p.id) ++ l.splitters.map (fun s => r.name s.id))

def pageLines (r : Replay) (l : Layout) : List String :=
  let width := nameWidth r l
  columns width "PAGE" areaHeadings ::
    l.pages.map fun p => columns width (r.name p.id) (areaCells p.area)

/-- The ratio has two places; a splitter without a split shows a dash. -/
def ratioText (r : Replay) (id : NodeId) : String := ((r.ratio? id).map (fixedPlaces 2)).getD "-"

/-- Nothing at all if there are no splitters, otherwise an empty line and the table. -/
def splitterLines (r : Replay) (l : Layout) : List String :=
  let width := nameWidth r l
  if l.splitters = [] then []
  else
    "" :: (columns width "SPLITTER" (areaHeadings ++ ["ORIENTATION"]) ++ "  RATIO") ::
      l.splitters.map fun s =>
        columns width (r.name s.id) (areaCells s.area ++ [s.orientation.lowerName]) ++ "  " ++
          ratioText r s.id

def tableLines (r : Replay) (l : Layout) : List String :=
  [s!"Grid: {l.rowCount} rows x {l.columnCount} columns",
    s!"Rows:    {trackSummary l.rows}",
    s!"Columns: {trackSummary l.columns}",
    ""] ++ mapLines r l ++ [""] ++ pageLines r l ++ splitterLines r l

/-- The lines without the blanks after the last one. -/
def table (r : Replay) (l : Layout) : String :=
  String.ofList (trimRight ("\n".intercalate (tableLines r l)).toList)

end PaneGrid.Report
