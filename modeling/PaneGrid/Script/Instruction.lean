import PaneGrid.Decimal.Numeral
import PaneGrid.Failure
import PaneGrid.Text.Blank

/-! Edit scripts: one instruction a line, in which nodes go by labels. A hash sign starts a comment
that runs to the end of its line. -/

namespace PaneGrid.Script

inductive Instruction where
  /-- Without a ratio the one in the settings is used. -/
  | split (leaf : String) (orientation : Orientation) (ratio : Option Float)
  | resize (split : String) (ratio : Float)
  | remove (leaf : String)
deriving DecidableEq, Repr

/-- An instruction and the number of its line; the first line is number 1. -/
structure Line where
  number : Nat
  instruction : Instruction
deriving DecidableEq, Repr

inductive LineFault where
  | invalidOrientation (word : String)
  | invalidRatio (word : String)
  | wrongArguments (line : String)
  | unknownCommand (word : String)
  | emptyLine
  | unknownLabel (label : String)
deriving DecidableEq, Repr

def LineFault.message : LineFault → String
  | invalidOrientation word =>
    s!"invalid orientation '{word}' (expected h, v, horizontal or vertical)"
  | invalidRatio word => s!"invalid ratio '{word}'"
  | wrongArguments line => s!"wrong number of arguments in '{line}'"
  | unknownCommand word => s!"unknown command '{word}'"
  | emptyLine => "empty line"
  | unknownLabel label => s!"unknown label '{label}'"

/-- What a line says once its comment and the blanks around it are gone. -/
def content (line : List Char) : List Char := trim (line.takeWhile (· ≠ '#'))

/-- Labels are written in any case of the ASCII letters. -/
def labelOf (word : String) : String := word.map Char.toUpper

def orientationOf (word : String) : Except LineFault Orientation :=
  match Orientation.parse? word with
  | some orientation => .ok orientation
  | none => .error (.invalidOrientation word)

/-- Any number passes; the tree checks its range. -/
def ratioOf (word : String) : Except LineFault Float :=
  match readNumber? word with
  | some ratio => .ok ratio
  | none => .error (.invalidRatio word)

/-- Reads the words of a line; `line` is quoted in the error. Command words are lower case. -/
def ofWords (line : String) : List String → Except LineFault Instruction
  | ["split", leaf, orientation] => do
    return .split (labelOf leaf) (← orientationOf orientation) none
  | ["split", leaf, orientation, ratio] => do
    return .split (labelOf leaf) (← orientationOf orientation) (some (← ratioOf ratio))
  | ["resize", split, ratio] => do
    return .resize (labelOf split) (← ratioOf ratio)
  | ["remove", leaf] => .ok (.remove (labelOf leaf))
  | command :: _ =>
    if command ∈ ["split", "resize", "remove"] then .error (.wrongArguments line)
    else .error (.unknownCommand command)
  | [] => .error .emptyLine

def ofContent (cs : List Char) : Except LineFault Instruction :=
  ofWords (String.ofList cs) ((words cs).map String.ofList)

/-- Reads lines from a given line number on, up to the first that cannot be read. -/
def ofLines : Nat → List (List Char) → Except Failure (List Line)
  | _, [] => .ok []
  | number, line :: rest =>
    let said := content line
    if said = [] then ofLines (number + 1) rest
    else
      match ofContent said with
      | .error fault => .error (.script number fault.message)
      | .ok instruction => do
        return ⟨number, instruction⟩ :: (← ofLines (number + 1) rest)

/-- Reads a whole script. Lines that say nothing are passed over. -/
def parse (text : String) : Except Failure (List Line) := ofLines 1 (lines text.toList)

end PaneGrid.Script
