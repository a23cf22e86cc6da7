import PaneGrid.Files.Basic

/-! A file system held in memory: folders and files without links or permissions. -/

namespace PaneGrid

/-- The names from the root down to an item. -/
abbrev Location := List String

inductive DiskItem where
  | folder (entries : List (String × DiskItem))
  | file (content : ByteArray)

namespace DiskItem

def empty : DiskItem := .folder []

/-- What lies at a location below an item. -/
def at? : Location → DiskItem → Option DiskItem
  | [], item => some item
  | name :: names, .folder entries => (entries.lookup name).bind (at? names)
  | _ :: _, .file _ => none

def insert (name : String) (item : DiskItem) : List (String × DiskItem) → List (String × DiskItem)
  | [] => [(name, item)]
  | (other, old) :: entries =>
    if other = name then (name, item) :: entries else (other, old) :: insert name item entries

/-- Puts an item at a location, if the folder that is to hold it exists. -/
def put (item : DiskItem) : Location → DiskItem → DiskItem
  | [], _ => item
  | [name], .folder entries => .folder (insert name item entries)
  | name :: names, .folder entries =>
    match entries.lookup name with
    | some inner => .folder (insert name (put item names inner) entries)
    | none => .folder entries
  | _ :: _, .file content => .file content

end DiskItem

structure Disk where
  root : DiskItem
  /-- Where relative paths start. -/
  here : Location

inductive DiskFault where
  | missing
  | notFolder
  | isFolder
  | nameTooLong
  | badName
deriving DecidableEq, Repr

def DiskFault.reason : DiskFault → String
  | missing => "No such file or directory (os error 2)"
  | notFolder => "Not a directory (os error 20)"
  | isFolder => "Is a directory (os error 21)"
  | nameTooLong => "File name too long (os error 36)"
  | badName => "file name contained an unexpected NUL byte"

namespace Disk

def item? (d : Disk) (location : Location) : Option DiskItem := d.root.at? location

def put (d : Disk) (location : Location) (item : DiskItem) : Disk :=
  { d with root := .put item location d.root }

def checkFolder (d : Disk) (location : Location) : Except DiskFault Unit :=
  match d.item? location with
  | some (.folder _) => .ok ()
  | some (.file _) => .error .notFolder
  | none => .error .missing

/-- One name further; whatever is left behind has to be a folder. -/
def step (d : Disk) (location : Location) (name : String) : Except DiskFault Location := do
  d.checkFolder location
  if Path.isIdle name then return location
  else if name = ".." then return location.dropLast
  else if 255 < name.utf8ByteSize then throw .nameTooLong
  else return location ++ [name]

/-- The longest path that is followed, in bytes. -/
def maxPath : Nat := 4095

/-- Where a path starts and the names that follow. -/
def route (d : Disk) (path : String) : Except DiskFault (Location × List String) :=
  if path.contains '\x00' then .error .badName
  else if path = "" then .error .missing
  else if maxPath < path.utf8ByteSize then .error .nameTooLong
  else .ok (if Path.isAbsolute path then [] else d.here, path.splitOn "/")

/-- Where a path leads. All of it but the last name has to exist. -/
def locate (d : Disk) (path : String) : Except DiskFault Location := do
  let (start, names) ← d.route path
  names.foldlM d.step start

def read (d : Disk) (path : String) : Except DiskFault ByteArray := do
  match d.item? (← d.locate path) with
  | some (.file content) => return content
  | some (.folder _) => throw .isFolder
  | none => throw .missing

def isPresent (d : Disk) (path : String) : Bool :=
  match d.locate path with
  | .ok location => (d.item? location).isSome
  | .error _ => false

def write (d : Disk) (path : String) (content : ByteArray) : Except DiskFault Disk := do
  let location ← d.locate path
  match d.item? location with
  | some (.folder _) => throw .isFolder
  | _ => return d.put location (.file content)

/-- Follows a path and makes every missing folder on the way; those made before a failure stay. -/
def makeFolders (start : Location) : List String → EStateM DiskFault Disk Unit
  | [] => return
  | name :: names => do
    match (← get).step start name with
    | .error fault => throw fault
    | .ok location =>
      if ((← get).item? location).isNone then modify fun d => d.put location .empty
      match (← get).checkFolder location with
      | .error fault => throw fault
      | .ok () => makeFolders location names

end Disk

/-- The operations of a disk in memory. -/
def diskFiles : Files (StateM Disk) where
  read path := do return ((← get).read path).mapError DiskFault.reason
  isPresent path := do return (← get).isPresent path
  makeFolders path := do
    match (← get).route path with
    | .error fault => return .error fault.reason
    | .ok (start, names) =>
      match (Disk.makeFolders start names).run (← get) with
      | .ok () d =>
        set d
        return .ok ()
      | .error fault d =>
        set d
        return .error fault.reason
  write path content := do
    match (← get).write path content with
    | .ok d =>
      set d
      return .ok ()
    | .error fault => return .error fault.reason

end PaneGrid
