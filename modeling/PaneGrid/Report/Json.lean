import PaneGrid.Script.Replay

/-! A layout as indented JSON. Members keep a fixed order. -/

namespace PaneGrid.Report

open Script (Replay)

/-- Numbers have an exponent below `1e-5` and from `1e16` on, and a point if they have none. -/
def jsonNumberStyle : NumberStyle where
  tie := .toEven
  pointZero := true
  plain e := -5 ≤ e && e < 16
  nan := "null"
  infinity := "null"

/-- What is no finite number is null. -/
def jsonNumber (x : Float) : String := if x.isFinite then jsonNumberStyle.render x else "null"

/-- Labels and identities hold nothing that would need an escape. -/
def jsonText (text : String) : String := s!"\"{text}\""

def jsonFlag (b : Bool) : String := if b then "true" else "false"

/-- Items between brackets, each on a line of its own two columns further in. -/
def jsonBlock (opening closing : String) (margin : Nat) (items : List String) : String :=
  let blanks (n : Nat) := String.ofList (List.replicate n ' ')
  if items = [] then opening ++ closing
  else
    opening ++ "\n" ++ ",\n".intercalate (items.map (blanks (margin + 2) ++ ·)) ++ "\n" ++
      blanks margin ++ closing

def jsonArray (margin : Nat) (items : List String) : String := jsonBlock "[" "]" margin items

def jsonObject (margin : Nat) (members : List (String × String)) : String :=
  jsonBlock "\x7b" "\x7d" margin (members.map fun (key, value) => s!"{jsonText key}: {value}")

def jsonArea (a : Area) : List (String × String) :=
  [("row", toString a.row), ("column", toString a.column), ("row_span", toString a.rowSpan),
    ("column_span", toString a.columnSpan)]

def jsonNode (r : Replay) (id : NodeId) : List (String × String) :=
  [("label", jsonText (r.name id)), ("id", jsonText id.uuid.text)]

def jsonPage (r : Replay) (p : Page) : String := jsonObject 4 (jsonNode r p.id ++ jsonArea p.area)

def jsonSplitter (r : Replay) (s : Splitter) : String :=
  jsonObject 4 (jsonNode r s.id ++
    [("orientation", jsonText s.orientation.lowerName),
      ("ratio", ((r.ratio? s.id).map jsonNumber).getD "null")] ++ jsonArea s.area)

/-- A track is true if it is a splitter track. -/
def jsonTracks (tracks : List Track) : String :=
  jsonArray 2 (tracks.map fun t => jsonFlag (t = .splitter))

def json (r : Replay) (l : Layout) : String :=
  jsonObject 0
    [("rows", jsonTracks l.rows), ("columns", jsonTracks l.columns),
      ("pages", jsonArray 2 (l.pages.map (jsonPage r))),
      ("splitters", jsonArray 2 (l.splitters.map (jsonSplitter r)))]

end PaneGrid.Report
