/-! Values of a TOML document, and what can be wrong with its text. -/

namespace PaneGrid.Toml

/-- Whether and how later lines may add to a table. -/
inductive Standing where
  /-- Written as an inline table, complete as it stands. -/
  | closed
  /-- Opened by a header of its own. -/
  | opened
  /-- Exists because a longer header passes through it; may still be opened. -/
  | implied
  /-- A dotted key has passed through it. -/
  | dotted
deriving DecidableEq, Repr

inductive Value where
  | string (text : String)
  | integer (n : Int)
  | float (x : Float)
  /-- Stands where a number does, but too large to be held, without digits, or with characters among
  them that are none. It is only at fault once somebody asks for its value. -/
  | unreadable
  | boolean (b : Bool)
  /-- A date, a time, or both. -/
  | moment (text : String)
  /-- A `growing` array is one of tables, each added by a header of its own. -/
  | array (growing : Bool) (items : List Value)
  | table (standing : Standing) (entries : List (String × Value))
deriving Repr

abbrev Entries := List (String × Value)

mutual

/-- Every number in the value can be read. -/
def Value.isReadable : Value → Bool
  | .unreadable => false
  | .array _ items => readableItems items
  | .table _ entries => readableEntries entries
  | _ => true

def readableItems : List Value → Bool
  | [] => true
  | v :: items => v.isReadable && readableItems items

def readableEntries : Entries → Bool
  | [] => true
  | (_, v) :: entries => v.isReadable && readableEntries entries

end

inductive Cause where
  | unterminatedText
  | badEscape
  | controlCharacter (c : Char)
  | malformedValue
  | malformedKey
  | duplicateKey (key : String)
  | notExtensible (key : String)
  | tooDeep
  | expected (what : String)
deriving DecidableEq, Repr

def Cause.message : Cause → String
  | unterminatedText => "a text is not closed"
  | badEscape => "unknown or incomplete escape in a text"
  | controlCharacter c => s!"control character {c.toNat} is not allowed here"
  | malformedValue => "not a value"
  | malformedKey => "not a key"
  | duplicateKey key => s!"'{key}' is already defined"
  | notExtensible key => s!"'{key}' cannot be extended"
  | tooDeep => "values are nested too deeply"
  | expected what => s!"expected {what}"

/-- A cause together with the number of characters that were left when it was met. -/
structure Refusal where
  cause : Cause
  left : Nat
deriving DecidableEq, Repr

def refuse {α : Type} (cause : Cause) (rest : List Char) : Except Refusal α :=
  .error ⟨cause, rest.length⟩

/-- The line of a text on which a refusal was met, counted from 1. -/
def Refusal.line (r : Refusal) (text : List Char) : Nat :=
  ((text.take (text.length - r.left)).filter (· = '\n')).length + 1

def Refusal.message (r : Refusal) (text : List Char) : String :=
  s!"line {r.line text}: {r.cause.message}"

end PaneGrid.Toml
