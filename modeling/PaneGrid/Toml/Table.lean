import PaneGrid.Toml.Value

/-! How lines build up a table. Entries keep the order in which they were written; a key is defined
once, and a table is opened by at most one header or by dotted keys, not by both. -/

namespace PaneGrid.Toml

/-- How a table stands once a path has passed through it; a missing table would have been made with
the standing `making`. -/
def Standing.passed (making standing : Standing) : Standing :=
  if making = .dotted then .dotted else standing

namespace Entries

def get? (es : Entries) (key : String) : Option Value := es.lookup key

def put (es : Entries) (key : String) (v : Value) : Entries :=
  if es.any (·.1 = key) then es.map fun e => if e.1 = key then (key, v) else e
  else es ++ [(key, v)]

/-- Adds a key that must be new. -/
def define (es : Entries) (key : String) (v : Value) : Except Cause Entries :=
  match es.get? key with
  | none => .ok (es.put key v)
  | some _ => .error (.duplicateKey key)

/-- What a path leads to, changed. Tables that are missing on the way are made, of the given
standing. Of an array of tables the last one is meant. Dotted keys may not pass through a table
that a header opened, and no header can open one that they have passed through. -/
def update (making : Standing) (f : Standing → Entries → Except Cause Entries) :
    List String → Standing → Entries → Except Cause Entries
  | [], standing, es => f standing es
  | key :: path, _, es => do
    match es.get? key with
    | none => return es.put key (.table making (← update making f path making []))
    | some (.table standing inner) =>
      if standing = .closed then throw (.notExtensible key)
      if standing = .opened ∧ making = .dotted then throw (.duplicateKey key)
      let standing := making.passed standing
      return es.put key (.table standing (← update making f path standing inner))
    | some (.array true items) =>
      match items.getLast? with
      | some (.table standing inner) =>
        let last := Value.table standing (← update making f path standing inner)
        return es.put key (.array true (items.dropLast ++ [last]))
      | _ => throw (.notExtensible key)
    | some _ => throw (.notExtensible key)

/-- Opens the table named by a header. -/
def openTable (path : List String) (key : String) (es : Entries) : Except Cause Entries :=
  update .implied (fun _ es =>
    match es.get? key with
    | none => .ok (es.put key (.table .opened []))
    | some (.table .implied inner) => .ok (es.put key (.table .opened inner))
    | some _ => .error (.duplicateKey key)) path .opened es

/-- Adds a table to the array of tables named by a header. -/
def openElement (path : List String) (key : String) (es : Entries) : Except Cause Entries :=
  update .implied (fun _ es =>
    match es.get? key with
    | none => .ok (es.put key (.array true [.table .opened []]))
    | some (.array true items) => .ok (es.put key (.array true (items ++ [.table .opened []])))
    | some _ => .error (.duplicateKey key)) path .opened es

/-- Defines a key of a table. The tables named by a dotted key belong to dotted keys alone. -/
def assign (path : List String) (key : String) (v : Value) (es : Entries) : Except Cause Entries :=
  update .dotted (fun standing es =>
    if path ≠ [] ∧ standing ≠ .dotted then .error (.duplicateKey key) else es.define key v)
    path .opened es

/-- Defines a key below the table at `current`. -/
def assignAt (current path : List String) (key : String) (v : Value) (es : Entries) :
    Except Cause Entries :=
  update .implied (fun _ es => assign path key v es) current .opened es

end Entries

end PaneGrid.Toml
