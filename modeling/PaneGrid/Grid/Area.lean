import PaneGrid.Orientation

/-! Blocks of grid cells. -/

namespace PaneGrid

/-- The size of a block. -/
structure Span where
  rows : Nat
  columns : Nat
deriving DecidableEq, Repr

namespace Span

def unit : Span := ⟨1, 1⟩

/-- The block of a split: two blocks with a splitter track between them. -/
def join (orientation : Orientation) (first second : Span) : Span :=
  match orientation with
  | .vertical => ⟨max first.rows second.rows, first.columns + 1 + second.columns⟩
  | .horizontal => ⟨first.rows + 1 + second.rows, max first.columns second.columns⟩

end Span

/-- A block with its place in the grid. -/
structure Area where
  row : Nat
  column : Nat
  rowSpan : Nat
  columnSpan : Nat
deriving DecidableEq, Repr

namespace Area

def unit (row column : Nat) : Area := ⟨row, column, 1, 1⟩

def contains (a : Area) (row column : Nat) : Bool :=
  a.row ≤ row && row < a.row + a.rowSpan && (a.column ≤ column && column < a.column + a.columnSpan)

/-- Cells row by row. -/
def cells (a : Area) : List (Nat × Nat) :=
  (List.range' a.row a.rowSpan).flatMap fun r =>
    (List.range' a.column a.columnSpan).map fun c => (r, c)

/-- The region of a split, cut into the regions of its children and the splitter. -/
structure Cut where
  first : Area
  splitter : Area
  second : Area
deriving DecidableEq, Repr

/-- The first child keeps its own size along the cut, the second one gets what is left. -/
def cut (region : Area) (orientation : Orientation) (first : Span) : Cut :=
  match orientation with
  | .vertical =>
    { first := ⟨region.row, region.column, region.rowSpan, first.columns⟩
      splitter := ⟨region.row, region.column + first.columns, region.rowSpan, 1⟩
      second := ⟨region.row, region.column + first.columns + 1, region.rowSpan,
        region.columnSpan - (first.columns + 1)⟩ }
  | .horizontal =>
    { first := ⟨region.row, region.column, first.rows, region.columnSpan⟩
      splitter := ⟨region.row + first.rows, region.column, 1, region.columnSpan⟩
      second := ⟨region.row + first.rows + 1, region.column,
        region.rowSpan - (first.rows + 1), region.columnSpan⟩ }

end Area

end PaneGrid
