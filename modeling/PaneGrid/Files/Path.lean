/-! Path texts: names separated by slashes. A path that starts with a slash is absolute. -/

namespace PaneGrid.Path

def isAbsolute (path : String) : Bool := path.toList.head? = some '/'

/-- A path below a folder; an absolute one stands for itself. -/
def join (folder path : String) : String :=
  if isAbsolute path then path
  else if folder = "" ∨ folder.toList.getLast? = some '/' then folder ++ path
  else folder ++ "/" ++ path

/-- Empty names and single dots lead nowhere. -/
def isIdle (name : String) : Bool := name = "" || name = "."

/-- The path without its last name, unless it has none. A dot at the very start counts as a name. -/
def parent? (path : String) : Option String :=
  let names := path.splitOn "/"
  let (root, names) := if isAbsolute path then ("/", names.tail) else ("", names)
  let (start, names) := match root, names with
    | "", "." :: rest => (["."], rest)
    | _, names => ([], names)
  match names.reverse.dropWhile isIdle with
  | _ :: above => some (root ++ "/".intercalate (start ++ (above.dropWhile isIdle).reverse))
  | [] => if start = [] then none else some ""

end PaneGrid.Path
