import PaneGrid.Command.Arguments
import PaneGrid.Command.Guide
import PaneGrid.Report.Json
import PaneGrid.Report.Table

/-! What each command does, over any file system. -/

namespace PaneGrid.Command

open Script (Replay)

/-- What a run of the program leaves behind besides files. -/
structure Outcome where
  exitCode : Nat
  out : String
  err : String
deriving DecidableEq, Repr

/-- An editor on the left over a terminal, a sidebar on the right that is split twice and then loses
its middle pane. -/
def demoScript : String :=
  "\n".intercalate
    ["# editor | sidebar", "split L0 vertical 0.7", "# editor over terminal",
      "split L0 horizontal 0.75", "# sidebar split into three", "split L1 horizontal",
      "split L3 horizontal", "resize S0 0.65", "remove L3", ""]

def report (format : ReportFormat) (r : Replay) : Except Failure String := do
  let layout ← r.layout
  match format with
  | .table => return Report.table r layout ++ "\n"
  | .json => return Report.json r layout ++ "\n"

/-- Reads a script, replays it and reports the tree that results. -/
def replayScript (settings : Settings) (supply : Nat → NodeId) (format : ReportFormat)
    (script : String) : Except Failure String := do
  let lines ← Script.parse script
  match (Replay.run lines).run (.start settings supply) with
  | .ok () r => report format r
  | .error failure _ => throw failure

variable {m : Type → Type} [Monad m]

/-- An existing file is only replaced by force. -/
def initSettings (files : Files m) (path : Option String) (force : Bool) :
    m (Except Failure String) := do
  let some path := path | return .error (.config .noConfigDir)
  if (← files.isPresent path) && !force then
    return .error (.output s!"{path} already exists (use --force to overwrite)")
  match ← Settings.default.save files path with
  | .ok () => return .ok s!"Wrote default settings to {path}\n"
  | .error fault => return .error (.config fault)

def perform (files : Files m) (around : Surroundings) (supply : Nat → NodeId)
    (config : Option String) (settings : Settings) : Task → m (Except Failure String)
  | .replay script format => do
    match ← files.readText script with
    | .ok text => return replayScript settings supply format text
    | .error reason => return .error (.io reason)
  | .demo format showScript => do
    let said := if showScript then demoScript ++ "\n" else ""
    return (replayScript settings supply format demoScript).map (said ++ ·)
  | .showSettings => return .ok settings.toToml
  | .initSettings force => initSettings files (config.or around.defaultSettingsPath) force
  | .completions shell => return .ok (completionText shell)

def loadSettings (files : Files m) (around : Surroundings) (config : Option String) :
    m (Except ConfigFault Settings) :=
  match config with
  | some path => Settings.load files path
  | none => Settings.loadOrDefault files around

/-- Starts the log. A log file is created anew; if that fails there is a warning and no log. -/
def openLog (files : Files m) (setup : LogSetup) : m String := do
  match setup.target with
  | .file path =>
    match ← files.writeText path "" with
    | .ok () => return ""
    | .error reason => return s!"Warning: failed to create log file {path}: {reason}\n"
  | _ => return ""

/-- Settings are read and the log is started before every task but the making of a settings file,
which must work whatever the present one holds. The text is what goes to the error channel. -/
def prepare (files : Files m) (around : Surroundings) (i : Invocation) :
    m (Except Failure (Settings × String)) := do
  if let .initSettings _ := i.task then return .ok (.default, "")
  match ← loadSettings files around i.config with
  | .error fault => return .error (.config fault)
  | .ok settings =>
    if i.quiet then return .ok (settings, "")
    let setup := LogSetup.ofSettings settings.logging
    let warning ← openLog files { setup with level := setup.level.raised i.verbosity }
    return .ok (settings, warning)

/-- Runs a task. A quiet run says nothing of its failure but for the exit code. -/
def invoke (files : Files m) (around : Surroundings) (supply : Nat → NodeId) (i : Invocation) :
    m Outcome := do
  let failed (warning : String) (failure : Failure) : Outcome :=
    ⟨failure.exitCode, "", warning ++ if i.quiet then "" else s!"Error: {failure.message}\n"⟩
  match ← prepare files around i with
  | .error failure => return failed "" failure
  | .ok (settings, warning) =>
    match ← perform files around supply i.config settings i.task with
    | .ok text => return ⟨0, text, warning⟩
    | .error failure => return failed warning failure

/-- Runs the program. Arguments that do not fit are answered with the usage and exit code 2. -/
def run (files : Files m) (around : Surroundings) (supply : Nat → NodeId) (args : List String) :
    m Outcome :=
  match readArguments around args with
  | .ok i => invoke files around supply i
  | .error (.help place) => return ⟨0, helpText place, ""⟩
  | .error (.version place) => return ⟨0, versionText place, ""⟩
  | .error .misuse => return ⟨2, "", usageLine .top⟩

end PaneGrid.Command
