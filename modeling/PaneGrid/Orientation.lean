/-! The two ways to divide a region. -/

namespace PaneGrid

inductive Orientation where
  /-- Children stacked top to bottom, a splitter row between them. -/
  | horizontal
  /-- Children side by side, a splitter column between them. -/
  | vertical
deriving DecidableEq, Repr

namespace Orientation

def name : Orientation → String
  | horizontal => "Horizontal"
  | vertical => "Vertical"

def lowerName : Orientation → String
  | horizontal => "horizontal"
  | vertical => "vertical"

def flip : Orientation → Orientation
  | horizontal => vertical
  | vertical => horizontal

/-- Letter case does not matter. Lowering ASCII letters is enough: no other character has one of
these letters as its lower case. -/
def parse? (word : String) : Option Orientation :=
  match word.map Char.toLower with
  | "h" | "horizontal" => some horizontal
  | "v" | "vertical" => some vertical
  | _ => none

end Orientation

end PaneGrid
