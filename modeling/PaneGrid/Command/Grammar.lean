/-! The words of the command line: which commands there are and what each of them takes. -/

namespace PaneGrid.Command

inductive ReportFormat where
  | table
  | json
deriving DecidableEq, Repr

def ReportFormat.ofName? : String → Option ReportFormat
  | "table" => some table
  | "json" => some json
  | _ => none

inductive Shell where
  | bash
  | elvish
  | fish
  | powershell
  | zsh
deriving DecidableEq, Repr

namespace Shell

def name : Shell → String
  | bash => "bash"
  | elvish => "elvish"
  | fish => "fish"
  | powershell => "powershell"
  | zsh => "zsh"

def ofName? (name : String) : Option Shell :=
  [bash, elvish, fish, powershell, zsh].find? (·.name = name)

end Shell

/-- How often an option may stand in one command, and whether it has a value. -/
inductive OptionForm where
  | once
  | counted
  | value (allowed : String → Bool)

structure OptionRule where
  long : String
  short : Option Char
  form : OptionForm

/-- The commands and the groups of commands. -/
inductive Place where
  | top
  | replay
  | demo
  | settings
  | settingsShow
  | settingsInit
  | completions
deriving DecidableEq, Repr

namespace Place

/-- The words that lead to a command. -/
def path : Place → List String
  | top => ["splitgrid"]
  | replay => ["splitgrid", "replay"]
  | demo => ["splitgrid", "demo"]
  | settings => ["splitgrid", "settings"]
  | settingsShow => ["splitgrid", "settings", "show"]
  | settingsInit => ["splitgrid", "settings", "init"]
  | completions => ["splitgrid", "completions"]

/-- The commands of a group; a single command has none. -/
def children : Place → List (String × Place)
  | top =>
    [("replay", replay), ("demo", demo), ("settings", settings), ("completions", completions)]
  | settings => [("show", settingsShow), ("init", settingsInit)]
  | _ => []

def isGroup (p : Place) : Bool := !p.children.isEmpty

def child? (p : Place) (word : String) : Option Place := p.children.lookup word

def configRule : OptionRule := ⟨"config", some 'c', .value (· ≠ "")⟩

/-- Options that every command takes. -/
def commonOptions : List OptionRule :=
  [configRule, ⟨"verbose", some 'v', .counted⟩, ⟨"quiet", some 'q', .once⟩]

def formatRule : OptionRule :=
  ⟨"format", some 'f', .value fun word => (ReportFormat.ofName? word).isSome⟩

def ownOptions : Place → List OptionRule
  | replay => [formatRule]
  | demo => [formatRule, ⟨"show-script", none, .once⟩]
  | settingsInit => [⟨"force", none, .once⟩]
  | _ => []

def options (p : Place) : List OptionRule := commonOptions ++ p.ownOptions

/-- Which words do as the operand of a command, if it has one. -/
def operand? : Place → Option (String → Bool)
  | replay => some (· ≠ "")
  | completions => some fun word => (Shell.ofName? word).isSome
  | _ => none

end Place

end PaneGrid.Command
