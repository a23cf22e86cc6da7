import PaneGrid.Command.Grammar

/-! What the program says about itself: its version, a summary of each command, and words for the
completion of commands in a shell. -/

namespace PaneGrid.Command

def versionText (place : Place) : String := "-".intercalate place.path ++ " 0.3.0\n"

namespace Place

def summary : Place → String
  | top => "Replay split-layout edits and print the resulting grid"
  | replay => "Replay a script of split/resize/remove edits and print the layout"
  | demo => "Replay a built-in example script and print the layout"
  | settings => "Show or create the settings file"
  | settingsShow => "Print the effective settings as TOML"
  | settingsInit => "Write default settings to the settings file"
  | completions => "Print words for the completion of commands in a shell"

def operandName? : Place → Option String
  | replay => some "<SCRIPT>"
  | completions => some "<SHELL>"
  | top | settings => some "<COMMAND>"
  | demo | settingsShow | settingsInit => none

end Place

def optionLine (rule : OptionRule) : String :=
  let short := match rule.short with
    | some letter => s!"-{letter}, "
    | none => "    "
  let value := match rule.form with
    | .value _ => s!" <{rule.long.map Char.toUpper}>"
    | _ => ""
  s!"  {short}--{rule.long}{value}\n"

def usageLine (place : Place) : String :=
  let words := " ".intercalate place.path
  let operand := (place.operandName?.map (" " ++ ·)).getD ""
  s!"Usage: {words} [OPTIONS]{operand}\n"

def helpText (place : Place) : String :=
  let commands := place.children.map fun (word, child) => s!"  {word}  {child.summary}\n"
  let commandPart := if commands = [] then "" else "\nCommands:\n" ++ String.join commands
  s!"{place.summary}\n\n{usageLine place}{commandPart}\nOptions:\n" ++
    String.join (place.options.map optionLine) ++ "  -h, --help\n  -V, --version\n"

def completionWords : String := "replay demo settings completions help"

def completionText : Shell → String
  | .bash => s!"complete -W '{completionWords}' splitgrid\n"
  | .elvish =>
    s!"set edit:completion:arg-completer[splitgrid] = \x7b|@words| put {completionWords} \x7d\n"
  | .fish => s!"complete -c splitgrid -f -a '{completionWords}'\n"
  | .powershell =>
    "Register-ArgumentCompleter -Native -CommandName splitgrid -ScriptBlock " ++
      s!"\x7b -split '{completionWords}' \x7d\n"
  | .zsh => s!"compctl -k '({completionWords})' splitgrid\n"

end PaneGrid.Command
