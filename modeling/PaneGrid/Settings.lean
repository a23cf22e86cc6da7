import PaneGrid.Log
import PaneGrid.Node
import PaneGrid.Toml.Document
import PaneGrid.Toml.Written

/-! Settings of pane trees and of logging, with their TOML form. A missing key has its default and
an unknown key is passed over. -/

namespace PaneGrid

structure Settings where
  minWidth : Float
  minHeight : Float
  ratio : Float
  logging : LogSettings
deriving DecidableEq, Repr

inductive ConfigFault where
  | io (path reason : String)
  | parse (explanation : String)
  | validation (field reason : String)
  | noConfigDir
deriving DecidableEq, Repr

def ConfigFault.message : ConfigFault → String
  | io path reason => s!"failed to access {path}: {reason}"
  | parse explanation => s!"failed to parse settings: {explanation}"
  | validation field reason => s!"invalid value for {field}: {reason}"
  | noConfigDir => "no configuration directory available"

namespace Settings

def default : Settings := ⟨defaultMinSize, defaultMinSize, defaultRatio, .default⟩

/-- Equal as numbers: both zeros are the same, and NaN differs from itself. -/
def same (a b : Settings) : Bool :=
  a.minWidth == b.minWidth && a.minHeight == b.minHeight && a.ratio == b.ratio &&
    a.logging = b.logging

/-- A leaf with the default minimum sizes. -/
def newLeaf (s : Settings) (id : NodeId) : Leaf := ⟨id, none, s.minWidth, s.minHeight, none⟩

def checkSize (field : String) (size : Float) : Except ConfigFault Unit :=
  if size.isFinite && 0.0 ≤ size then .ok ()
  else .error (.validation field
    s!"{plainNumber.render size} is not a finite, non-negative size")

/-- The ratio is looked at first, then width and height. -/
def validate (s : Settings) : Except ConfigFault Unit := do
  if !inUnitRange s.ratio then
    throw (.validation "default_ratio"
      s!"{plainNumber.render s.ratio} is not between 0.0 and 1.0")
  checkSize "default_min_width" s.minWidth
  checkSize "default_min_height" s.minHeight

def toToml (s : Settings) : String :=
  let number (key : String) (x : Float) := s!"{key} = {Toml.writeNumber x}\n"
  let file := match s.logging.file with
    | some path => s!"log_file = {Toml.quote path}\n"
    | none => ""
  number "default_min_width" s.minWidth ++ number "default_min_height" s.minHeight ++
    number "default_ratio" s.ratio ++
    s!"\n[logging]\nlevel = \"{s.logging.level.name}\"\n" ++ file

/-- A number field takes an integer too, if a machine word can hold it. -/
def numberOf (field : String) : Toml.Value → Except ConfigFault Float
  | .float x => .ok x
  | .integer n =>
    if -Int.pow 2 63 ≤ n ∧ n < Int.pow 2 64 then
      .ok (Numeral.withSign (n < 0) (Numeral.nearest n.natAbs 0))
    else .error (.parse s!"{field}: integer out of range")
  | _ => .error (.parse s!"{field}: expected a number")

def textOf (field : String) : Toml.Value → Except ConfigFault String
  | .string text => .ok text
  | _ => .error (.parse s!"{field}: expected a text")

def namedLevel (name : String) : Except ConfigFault LogLevel :=
  match LogLevel.ofName? name with
  | some level => .ok level
  | none => .error (.parse s!"unknown log level '{name}'")

/-- A level is a text, or a table whose only key names it and holds nothing. -/
def levelOf : Toml.Value → Except ConfigFault LogLevel
  | .string name => namedLevel name
  | .table _ [(name, .table _ [])] | .table _ [(name, .array _ [])] => namedLevel name
  | _ => .error (.parse "level: expected a text")

/-- The value under a key, or the default if the key is missing. -/
def fieldOr {α : Type} (es : Toml.Entries) (key : String) (otherwise : α)
    (read : Toml.Value → Except ConfigFault α) : Except ConfigFault α :=
  match es.get? key with
  | some v => read v
  | none => .ok otherwise

/-- Keys that are passed over must not hold unreadable numbers either. -/
def checkReadable (es : Toml.Entries) : Except ConfigFault Unit :=
  match es.find? fun e => !e.2.isReadable with
  | some (key, _) => .error (.parse s!"{key}: not a number that can be held")
  | none => .ok ()

/-- Logging settings are a table, or an array that begins with its fields in order; nobody looks at
what follows them. A date holds none of the fields. -/
def loggingOf : Toml.Value → Except ConfigFault LogSettings
  | .table _ es => do
    checkReadable es
    let level ← fieldOr es "level" .info levelOf
    let file ← fieldOr es "log_file" none fun v => some <$> textOf "log_file" v
    return ⟨level, file⟩
  | .array _ items => do
    let level ← match items with
      | v :: _ => levelOf v
      | [] => .ok .info
    let file ← match items with
      | _ :: v :: _ => some <$> textOf "log_file" v
      | _ => .ok none
    return ⟨level, file⟩
  | .moment _ => .ok .default
  | _ => .error (.parse "logging: expected a table")

def ofEntries (es : Toml.Entries) : Except ConfigFault Settings := do
  checkReadable (es.filter (·.1 ≠ "logging"))
  let number (key : String) (otherwise : Float) := fieldOr es key otherwise (numberOf key)
  return {
    minWidth := ← number "default_min_width" defaultMinSize
    minHeight := ← number "default_min_height" defaultMinSize
    ratio := ← number "default_ratio" defaultRatio
    logging := ← fieldOr es "logging" .default loggingOf }

/-- Parses the whole text before any value is validated. -/
def ofToml (text : String) : Except ConfigFault Settings := do
  let cs := text.toList
  let settings ← match Toml.entries cs with
    | .ok es => ofEntries es
    | .error r => .error (.parse (r.message cs))
  settings.validate
  return settings

end Settings

end PaneGrid
