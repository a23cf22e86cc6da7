import PaneGrid.Command.Grammar
import PaneGrid.SettingsFile

/-! Reading the command line. Words are taken in order and the first one that decides the outcome
wins: a request for help or for the version, or a word that does not fit. What can only be judged
at the end of a command is judged once the commands below it are read. -/

namespace PaneGrid.Command

/-- Reading ends early. -/
inductive Stop where
  | help (place : Place)
  | version (place : Place)
  | misuse
deriving DecidableEq, Repr

/-- What was read of one command. -/
structure Level where
  place : Place
  /-- Options by their long names, with their values; a flag has none. -/
  given : List (String × Option String)
  operand : Option String
  /-- A value in a word of its own is judged when the next option comes, or at the end. -/
  held : Option (OptionRule × String)

namespace Level

def start (place : Place) : Level := ⟨place, [], none, none⟩

def has (l : Level) (name : String) : Bool := l.given.any (·.1 = name)

def count (l : Level) (name : String) : Nat := (l.given.filter (·.1 = name)).length

def value? (l : Level) (name : String) : Option String := (l.given.lookup name).join

def add (l : Level) (rule : OptionRule) (value : Option String) : Level :=
  { l with given := l.given ++ [(rule.long, value)] }

/-- Only a counted option may be repeated. -/
def addFlag (l : Level) (rule : OptionRule) : Except Stop Level :=
  match rule.form with
  | .counted => .ok (l.add rule none)
  | _ => if l.has rule.long then .error .misuse else .ok (l.add rule none)

def addValue (l : Level) (rule : OptionRule) (value : String) : Except Stop Level :=
  match rule.form with
  | .value allowed =>
    if l.has rule.long || !allowed value then .error .misuse else .ok (l.add rule (some value))
  | _ => .error .misuse

/-- Judges the value that is held back. -/
def settle (l : Level) : Except Stop Level :=
  match l.held with
  | some (rule, value) => { l with held := none }.addValue rule value
  | none => .ok l

/-- Takes the operand of a command. -/
def addOperand (l : Level) (word : String) : Except Stop Level :=
  match l.place.operand?, l.operand with
  | some allowed, none =>
    if allowed word then .ok { l with operand := some word } else .error .misuse
  | _, _ => .error .misuse

/-- Ends the options of a command. The variable for the settings file counts as given in every
command that does not have the option itself, and it must not be empty. -/
def close (around : Surroundings) (l : Level) : Except Stop Level := do
  let l ← l.settle
  if !l.has "config" && around.configFile = some "" then throw .misuse
  return l

/-- Ends the last command, which must be no group and must have its operand. -/
def finish (around : Surroundings) (l : Level) : Except Stop Level := do
  let l ← l.close around
  if l.place.isGroup then throw .misuse
  if l.place.operand?.isSome && l.operand = none then throw .misuse
  return l

def takesValue (rule : OptionRule) : Bool := match rule.form with | .value _ => true | _ => false

/-- Splits at the first equals sign. -/
def splitAssignment (cs : List Char) : List Char × Option (List Char) :=
  match cs.dropWhile (· ≠ '=') with
  | _ :: value => (cs.takeWhile (· ≠ '='), some value)
  | [] => (cs, none)

/-- Reads an option by its long name. The rule that comes back still waits for its value. -/
def readLong (l : Level) (cs : List Char) : Except Stop (Level × Option OptionRule) := do
  let (name, value) := splitAssignment cs
  let name := String.ofList name
  let l ← l.settle
  if name = "help" ∧ value = none then throw (.help l.place)
  if name = "version" ∧ value = none then throw (.version l.place)
  match l.place.options.find? (·.long = name), value with
  | none, _ => throw .misuse
  | some rule, some value => return (← l.addValue rule (String.ofList value), none)
  | some rule, none =>
    if takesValue rule then return (l, some rule) else return (← l.addFlag rule, none)

/-- Reads options by their letters. A letter that takes a value takes the rest of the word, after an
equals sign if there is one; without a rest it waits for the next word. -/
def readShort (l : Level) : List Char → Except Stop (Level × Option OptionRule)
  | [] => .ok (l, none)
  | letter :: rest => do
    let l ← l.settle
    if letter = 'h' then throw (.help l.place)
    if letter = 'V' then throw (.version l.place)
    match l.place.options.find? (·.short = some letter) with
    | none => throw .misuse
    | some rule =>
      if takesValue rule then
        match rest with
        | [] => return (l, some rule)
        | '=' :: value | value => return (← l.addValue rule (String.ofList value), none)
      else (← l.addFlag rule).readShort rest

end Level

/-- The place whose help is asked for: `help` itself counts as a command of every group and shows
the help of the group. -/
def helpPlace : Place → List String → Except Stop Place
  | place, [] => .ok place
  | place, word :: words =>
    match place.child? word with
    | some child => helpPlace child words
    | none => if place.isGroup ∧ word = "help" ∧ words = [] then .ok place else .error .misuse

/-- What a word is, by its first characters. -/
inductive WordShape where
  | escape
  | long (cs : List Char)
  | short (cs : List Char)
  | plain
deriving DecidableEq, Repr

def WordShape.of (word : String) : WordShape :=
  match word.toList with
  | ['-', '-'] => .escape
  | '-' :: '-' :: cs => .long cs
  | '-' :: c :: cs => .short (c :: cs)
  | _ => .plain

/-- After a lone double dash all words are operands. -/
def readOperands (l : Level) (words : List String) : Except Stop Level := do
  words.foldlM Level.addOperand (← l.settle)

/-- Reads the words of a command and of those below it, outermost first. -/
def readLevels (around : Surroundings) : Level → List String → Except Stop (List Level)
  | l, [] => return [← l.finish around]
  | l, word :: words =>
    match WordShape.of word with
    | .escape => do return [← (← readOperands l words).finish around]
    | .long cs =>
      match l.readLong cs with
      | .error stop => .error stop
      | .ok (l, none) => readLevels around l words
      | .ok (l, some rule) => readValue l rule words
    | .short cs =>
      match l.readShort cs with
      | .error stop => .error stop
      | .ok (l, none) => readLevels around l words
      | .ok (l, some rule) => readValue l rule words
    | .plain =>
      if l.place.isGroup then
        match l.place.child? word with
        | some child => do
          let below ← readLevels around (.start child) words
          return (← l.close around) :: below
        | none => do
          if word = "help" then throw (.help (← helpPlace l.place words))
          throw .misuse
      else
        match l.addOperand word with
        | .error stop => .error stop
        | .ok l => readLevels around l words
where
  /-- The value in the next word must not look like an option. -/
  readValue (l : Level) (rule : OptionRule) : List String → Except Stop (List Level)
    | [] => .error .misuse
    | value :: words =>
      match WordShape.of value with
      | .plain => readLevels around { l with held := some (rule, value) } words
      | _ => .error .misuse

/-- What a command is to do. -/
inductive Task where
  | replay (script : String) (format : ReportFormat)
  | demo (format : ReportFormat) (showScript : Bool)
  | showSettings
  | initSettings (force : Bool)
  | completions (shell : Shell)
deriving DecidableEq, Repr

structure Invocation where
  /-- Settings file, if one is named. -/
  config : Option String
  verbosity : Nat
  quiet : Bool
  task : Task
deriving DecidableEq, Repr

/-- The value at the innermost level that has one. -/
def innermost {α : Type} (levels : List Level) (f : Level → Option α) : Option α :=
  levels.reverse.findSome? f

def taskOf (l : Level) : Option Task :=
  let format := ((l.value? "format").bind ReportFormat.ofName?).getD .table
  match l.place with
  | .replay => l.operand.map (.replay · format)
  | .demo => some (.demo format (l.has "show-script"))
  | .settingsShow => some .showSettings
  | .settingsInit => some (.initSettings (l.has "force"))
  | .completions => (l.operand.bind Shell.ofName?).map .completions
  | .top | .settings => none

/-- An option counts as it is given in the innermost command that has it. -/
def invocationOf (around : Surroundings) (levels : List Level) : Option Invocation := do
  let last ← levels.getLast?
  let task ← taskOf last
  let config := innermost levels (·.value? "config")
  let verbosity := innermost levels fun l =>
    if l.has "verbose" then some (l.count "verbose") else none
  return ⟨config.or around.configFile, verbosity.getD 0, levels.any (·.has "quiet"), task⟩

def readArguments (around : Surroundings) (words : List String) : Except Stop Invocation := do
  let levels ← readLevels around (.start .top) words
  match invocationOf around levels with
  | some invocation => return invocation
  | none => throw .misuse

end PaneGrid.Command
