import PaneGrid.Toml.Scalar
import PaneGrid.Toml.Table
import PaneGrid.Toml.Text

/-! Reading a TOML 1.1 document. Readers take the characters ahead and give back what they read
together with the characters after it. -/

namespace PaneGrid.Toml

abbrev Reader (α : Type) := List Char → Except Refusal (α × List Char)

def skipBlanks (cs : List Char) : List Char := cs.dropWhile isSpace

/-- Passes over a comment up to the end of its line. -/
def skipComment : List Char → Except Refusal (List Char)
  | [] => .ok []
  | '\n' :: cs => .ok ('\n' :: cs)
  | '\r' :: '\n' :: cs => .ok ('\n' :: cs)
  | c :: cs => if isPlain c then skipComment cs else refuse (.controlCharacter c) cs

/-- Passes over blanks, line ends and comments; `comment` tells whether one has begun. -/
def skipFiller : (comment : Bool) → List Char → Except Refusal (List Char)
  | _, [] => .ok []
  | _, '\n' :: cs | _, '\r' :: '\n' :: cs => skipFiller false cs
  | true, c :: cs => if isPlain c then skipFiller true cs else refuse (.controlCharacter c) cs
  | false, ' ' :: cs | false, '\t' :: cs => skipFiller false cs
  | false, '#' :: cs => skipFiller true cs
  | false, cs => .ok cs

def isKeyChar (c : Char) : Bool := c.isAlphanum || c = '_' || c = '-'

def key : Reader String := fun cs =>
  match lineText? cs with
  | some result => result
  | none =>
    let word := cs.takeWhile isKeyChar
    if word = [] then refuse .malformedKey cs
    else .ok (String.ofList word, cs.dropWhile isKeyChar)

/-- Keys joined by dots: the path and the last key. Every dot is followed by a key, so the length of
the text bounds their number. -/
def keyPath : Nat → Reader (List String × String)
  | 0, cs => refuse .malformedKey cs
  | fuel + 1, cs => do
    let (first, cs) ← key cs
    match skipBlanks cs with
    | '.' :: rest =>
      let ((path, last), rest) ← keyPath fuel (skipBlanks rest)
      return ((first :: path, last), rest)
    | rest => return (([], first), rest)

/-- The deepest nesting of brackets in a value, and the most names in a dotted key. -/
def maxDepth : Nat := 80

def dottedKey : Reader (List String × String) := fun cs => do
  let ((path, key), rest) ← keyPath cs.length cs
  if maxDepth ≤ path.length then refuse .tooDeep rest
  return ((path, key), rest)

/-- Items between brackets, separated by commas, a last comma allowed. Each item takes at least one
character, so the length of the text bounds their number. -/
def items {α : Type} (close : Char) (item : Reader α) : Nat → Reader (List α)
  | 0, cs => refuse (.expected s!"'{close}'") cs
  | fuel + 1, cs => do
    let cs ← skipFiller false cs
    if cs.head? = some close then return ([], cs.tail)
    let (first, cs) ← item cs
    match ← skipFiller false cs with
    | [] => refuse (.expected s!"'{close}'") []
    | c :: rest =>
      if c = ',' then
        let (others, rest) ← items close item fuel rest
        return (first :: others, rest)
      else if c = close then return ([first], rest)
      else refuse (.expected s!"',' or '{close}'") (c :: rest)

structure Assignment where
  path : List String
  key : String
  value : Value

/-- A key, an equals sign and a value; `gap` passes over what may stand around the sign. -/
def assignment (gap : List Char → Except Refusal (List Char)) (value : Reader Value) :
    Reader Assignment := fun cs => do
  let ((path, key), cs) ← dottedKey cs
  match ← gap cs with
  | '=' :: rest =>
    let (value, rest) ← value (← gap rest)
    return (⟨path, key, value⟩, rest)
  | rest => refuse (.expected "'='") rest

/-- The table of an inline list of assignments. -/
def inlineTable (assignments : List Assignment) : Except Cause Value := do
  let entries ← assignments.foldlM (fun es a => Entries.assign a.path a.key a.value es) []
  return .table .closed entries

/-- A value in which no more than `depth` brackets are nested. -/
def value : Nat → Reader Value
  | depth, cs =>
    match quotedText? cs with
    | some result => do
      let (text, rest) ← result
      return (.string text, rest)
    | none =>
      match depth, cs with
      | 0, '[' :: _ | 0, '{' :: _ => refuse .tooDeep cs
      | depth + 1, '[' :: rest => do
        let (values, rest) ← items ']' (value depth) rest.length rest
        return (.array false values, rest)
      | depth + 1, '{' :: rest => do
        let entry := assignment (skipFiller false) (value depth)
        let (assignments, rest) ← items '}' entry rest.length rest
        match inlineTable assignments with
        | .ok table => return (table, rest)
        | .error cause => refuse cause rest
      | _, _ =>
        let (word, rest) := takeWord false cs
        match scalar word with
        | .ok v => .ok (v, rest)
        | .error cause => refuse cause cs

/-- A document in the making: its entries and the path of the table that lines add to. -/
structure Draft where
  entries : Entries
  current : List String

def orRefuse (cs : List Char) (edit : Except Cause Entries) : Except Refusal Entries :=
  match edit with
  | .ok es => .ok es
  | .error cause => refuse cause cs

/-- The key of a header up to its closing brackets. -/
def header (close : List Char) : Reader (List String × String) := fun cs => do
  let (path, rest) ← dottedKey (skipBlanks cs)
  let rest := skipBlanks rest
  if close.isPrefixOf rest then return (path, rest.drop close.length)
  else refuse (.expected s!"'{String.ofList close}'") rest

/-- One header, or one assignment on a line; `cs` starts with neither a blank nor a line end. -/
def statement (draft : Draft) : List Char → Except Refusal (Draft × List Char)
  | '[' :: '[' :: cs => do
    let ((path, key), rest) ← header [']', ']'] cs
    let entries ← orRefuse rest (draft.entries.openElement path key)
    return (⟨entries, path ++ [key]⟩, rest)
  | '[' :: cs => do
    let ((path, key), rest) ← header [']'] cs
    let entries ← orRefuse rest (draft.entries.openTable path key)
    return (⟨entries, path ++ [key]⟩, rest)
  | cs => do
    let (a, rest) ← assignment (.ok ∘ skipBlanks) (value maxDepth) cs
    let entries ← orRefuse rest (draft.entries.assignAt draft.current a.path a.key a.value)
    return ({ draft with entries }, rest)

/-- Statements up to the end of the text, each on a line of its own. Every round but the last one
takes at least the end of a line, so the length of the text bounds the number of rounds. -/
def statements : Nat → Draft → List Char → Except Refusal Draft
  | 0, draft, _ => .ok draft
  | fuel + 1, draft, cs => do
    match ← skipFiller false cs with
    | [] => return draft
    | c :: rest =>
      let (draft, rest) ← statement draft (c :: rest)
      match skipBlanks rest with
      | [] => return draft
      | '#' :: rest => statements fuel draft (← skipComment rest)
      | '\n' :: rest | '\r' :: '\n' :: rest => statements fuel draft rest
      | rest => refuse (.expected "the end of the line") rest

/-- The entries of a document. A byte order mark at its start is passed over. -/
def entries (text : List Char) : Except Refusal Entries := do
  let cs := match text with
    | '\ufeff' :: cs => cs
    | cs => cs
  return (← statements (cs.length + 1) ⟨[], []⟩ cs).entries

end PaneGrid.Toml
