import PaneGrid.Decimal.Style
import PaneGrid.Text.Hex

/-! Writing keys, numbers and texts as TOML. A text gets the kind of quotes that needs the least
escaping. -/

namespace PaneGrid.Toml

/-- Numbers never have an exponent, and whole ones end in a point and a zero. -/
def numberStyle : NumberStyle where
  tie := .up
  pointZero := true
  plain _ := true
  nan := "nan"
  infinity := "inf"

/-- The sign of a NaN has no meaning and is not written. -/
def writeNumber (x : Float) : String := numberStyle.render x

def isControl (c : Char) : Bool := c < ' ' || c = '\x7f'

/-- The text holds a character that only an escape can write. -/
def needsEscape (cs : List Char) : Bool := cs.any fun c => isControl c && c ≠ '\t' && c ≠ '\n'

/-- The quote stands three times in a row. -/
def hasTriple (quote : Char) : List Char → Bool
  | a :: b :: c :: cs =>
    (a = quote && b = quote && c = quote) || hasTriple quote (b :: c :: cs)
  | _ => false

/-- How a character other than a quote is written between double quotes. -/
def escapeChar (multiline : Bool) (c : Char) : List Char :=
  match c with
  | '\x08' => ['\\', 'b']
  | '\t' => ['\\', 't']
  | '\x0c' => ['\\', 'f']
  | '\r' => ['\\', 'r']
  | '\\' => ['\\', '\\']
  | '\n' => if multiline then ['\n'] else ['\\', 'n']
  | _ =>
    if isControl c then
      ['\\', 'u', '0', '0', Hex.upperChar (c.toNat / 16), Hex.upperChar (c.toNat % 16)]
    else [c]

/-- Escapes a text. On one line every quote is escaped, otherwise only the third of three in a row;
`run` counts the quotes just written. -/
def escape (multiline : Bool) : (run : Nat) → List Char → List Char
  | _, [] => []
  | run, c :: cs =>
    if c = '"' then
      if multiline && run < 2 then '"' :: escape multiline (run + 1) cs
      else '\\' :: '"' :: escape multiline 0 cs
    else escapeChar multiline c ++ escape multiline 0 cs

inductive Quotes where
  | basic
  | literal
  | basicLines
  | literalLines
deriving DecidableEq, Repr

def quotesFor (cs : List Char) : Quotes :=
  let escaped := needsEscape cs
  let backslash := cs.contains '\\'
  let lines := cs.contains '\n'
  if !escaped && !backslash && !cs.contains '"' && !lines then .basic
  else if !escaped && !cs.contains '\'' && !lines then .literal
  else if !escaped && !backslash && !hasTriple '"' cs then .basicLines
  else if !escaped && !hasTriple '\'' cs then .literalLines
  else if lines then .basicLines
  else .basic

/-- After three opening quotes a text of several lines starts on a line of its own. -/
def opening (cs : List Char) : List Char := if cs.contains '\n' then ['\n'] else []

def quote (text : String) : String :=
  let cs := text.toList
  match quotesFor cs with
  | .basic => "\"" ++ String.ofList (escape false 0 cs) ++ "\""
  | .literal => "'" ++ text ++ "'"
  | .basicLines => "\"\"\"" ++ String.ofList (opening cs ++ escape true 0 cs) ++ "\"\"\""
  | .literalLines => "'''" ++ String.ofList (opening cs) ++ text ++ "'''"

end PaneGrid.Toml
