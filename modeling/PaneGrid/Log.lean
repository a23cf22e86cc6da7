/-! What is logged and where to: levels, destinations, and the names of the logged operations. -/

namespace PaneGrid

inductive LogLevel where
  | error
  | warn
  | info
  | debug
  | trace
deriving DecidableEq, Repr

namespace LogLevel

def rank : LogLevel → Nat
  | error => 0
  | warn => 1
  | info => 2
  | debug => 3
  | trace => 4

def name : LogLevel → String
  | error => "error"
  | warn => "warn"
  | info => "info"
  | debug => "debug"
  | trace => "trace"

/-- One step more talkative; the last level stays. -/
def next : LogLevel → LogLevel
  | error => warn
  | warn => info
  | info => debug
  | debug | trace => trace

def raised : LogLevel → Nat → LogLevel
  | level, 0 => level
  | level, steps + 1 => level.next.raised steps

def ofName? (name : String) : Option LogLevel :=
  [error, warn, info, debug, trace].find? (·.name = name)

/-- Letter case does not matter, and `warning` is another word for `warn`. Lowering ASCII letters is
enough: no other character has one of these letters as its lower case. -/
def parse? (word : String) : Option LogLevel :=
  match word.map Char.toLower with
  | "warning" => some warn
  | lower => ofName? lower

end LogLevel

inductive LogTarget where
  | stdout
  | stderr
  | file (path : String)
deriving DecidableEq, Repr

structure LogSettings where
  level : LogLevel
  file : Option String
deriving DecidableEq, Repr

def LogSettings.default : LogSettings := ⟨.info, none⟩

structure LogSetup where
  level : LogLevel
  target : LogTarget
  /-- Replaces the directive made from the level. -/
  filter : Option String
deriving DecidableEq, Repr

namespace LogSetup

def default : LogSetup := ⟨.info, .stderr, none⟩

def ofSettings (s : LogSettings) : LogSetup :=
  ⟨s.level, match s.file with | some path => .file path | none => .stderr, none⟩

def directive (s : LogSetup) : String := s!"splitgrid={s.level.name}"

end LogSetup

/-- Names under which operations are logged: split, remove, resize, layout, replay, load, save. -/
def operationNames : List String :=
  ["layout.split", "layout.remove", "layout.resize", "layout.compute", "script.replay",
    "config.load", "config.save"]

end PaneGrid
