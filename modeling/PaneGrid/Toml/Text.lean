import PaneGrid.Text.Hex
import PaneGrid.Toml.Value

/-! Quoted texts of a TOML document: finding where one ends, and undoing its escapes. -/

namespace PaneGrid.Toml

def isSpace (c : Char) : Bool := c = ' ' || c = '\t'

/-- Neither a control character nor the end of a line; a tab is allowed. -/
def isPlain (c : Char) : Bool := c = '\t' || (' ' ≤ c && c ≠ '\x7f')

/-- Body and rest of a text on one line that ends at `quote`; `escapes` tells whether a backslash
keeps the next character from ending it. -/
def untilQuote (quote : Char) (escapes : Bool) : List Char → Option (List Char × List Char)
  | [] => none
  | c :: cs =>
    if c = quote then some ([], cs)
    else if c = '\n' then none
    else if escapes && c = '\\' then
      match cs with
      | [] => none
      | d :: ds => (untilQuote quote escapes ds).map fun (body, rest) => (c :: d :: body, rest)
    else (untilQuote quote escapes cs).map fun (body, rest) => (c :: body, rest)

/-- The same for a text that ends at three quotes. Up to two more quotes that follow at once belong
to the body. -/
def untilQuotes (quote : Char) (escapes : Bool) : List Char → Option (List Char × List Char)
  | [] => none
  | c :: cs =>
    let run := ((c :: cs).take 5).takeWhile (· = quote)
    if 3 ≤ run.length then some (run.drop 3, cs.drop (run.length - 1))
    else if escapes && c = '\\' then
      match cs with
      | [] => none
      | d :: ds => (untilQuotes quote escapes ds).map fun (body, rest) => (c :: d :: body, rest)
    else (untilQuotes quote escapes cs).map fun (body, rest) => (c :: body, rest)

/-- The character with a hexadecimal code, unless the code is reserved. -/
def scalar? (digits : List Char) : Option Char := do
  let n ← Hex.value? digits
  if n.isValidChar then some (Char.ofNat n) else none

def letterEscape? : Char → Option Char
  | 'b' => some '\x08'
  | 't' => some '\t'
  | 'n' => some '\n'
  | 'f' => some '\x0c'
  | 'r' => some '\r'
  | 'e' => some '\x1b'
  | '"' => some '"'
  | '\\' => some '\\'
  | _ => none

/-- Only blanks stand before the end of the line. -/
def endsLine (cs : List Char) : Bool :=
  match cs.dropWhile isSpace with
  | '\n' :: _ | '\r' :: '\n' :: _ => true
  | _ => false

/-- A character of the body itself, which in a text of several lines may end a line. -/
def checkRaw (multiline : Bool) (c : Char) (rest : List Char) : Except Cause Unit :=
  if isPlain c then .ok ()
  else if multiline && (c = '\n' || (c = '\r' && rest.head? = some '\n')) then .ok ()
  else .error (.controlCharacter c)

/-- Undoes escapes. After a backslash that ends a line, `skipping` passes over blanks and line ends
up to the next other character. -/
def unescape (multiline : Bool) : Bool → List Char → Except Cause (List Char)
  | _, [] => .ok []
  | true, ' ' :: cs | true, '\t' :: cs | true, '\n' :: cs | true, '\r' :: '\n' :: cs =>
    unescape multiline true cs
  | _, '\\' :: 'x' :: a :: b :: cs => do
    let some c := scalar? [a, b] | throw .badEscape
    return c :: (← unescape multiline false cs)
  | _, '\\' :: 'u' :: a :: b :: c :: d :: cs => do
    let some c := scalar? [a, b, c, d] | throw .badEscape
    return c :: (← unescape multiline false cs)
  | _, '\\' :: 'U' :: a :: b :: c :: d :: e :: f :: g :: h :: cs => do
    let some c := scalar? [a, b, c, d, e, f, g, h] | throw .badEscape
    return c :: (← unescape multiline false cs)
  | _, '\\' :: c :: cs =>
    match letterEscape? c with
    | some d => do return d :: (← unescape multiline false cs)
    | none => if multiline && endsLine (c :: cs) then unescape multiline true (c :: cs)
      else .error .badEscape
  | _, c :: cs => do
    if c = '\\' then throw .badEscape
    checkRaw multiline c cs
    return c :: (← unescape multiline false cs)

/-- Checks a body in which nothing is escaped. -/
def literal (multiline : Bool) : List Char → Except Cause (List Char)
  | [] => .ok []
  | c :: cs => do
    checkRaw multiline c cs
    return c :: (← literal multiline cs)

/-- A line end right after the opening quotes is no part of the text. -/
def dropFirstLineEnd : List Char → List Char
  | '\n' :: cs | '\r' :: '\n' :: cs => cs
  | cs => cs

def closedBody (found : Option (List Char × List Char))
    (decode : List Char → Except Cause (List Char)) (start : List Char) :
    Except Refusal (String × List Char) :=
  match found with
  | none => refuse .unterminatedText start
  | some (body, rest) =>
    match decode body with
    | .ok cs => .ok (String.ofList cs, rest)
    | .error cause => refuse cause start

/-- A text on one line, given from its opening quote on. -/
def lineText? : List Char → Option (Except Refusal (String × List Char))
  | '"' :: cs => some (closedBody (untilQuote '"' true cs) (unescape false false) cs)
  | '\'' :: cs => some (closedBody (untilQuote '\'' false cs) (literal false) cs)
  | _ => none

/-- Any quoted text, given from its opening quotes on. -/
def quotedText? : List Char → Option (Except Refusal (String × List Char))
  | '"' :: '"' :: '"' :: cs =>
    some (closedBody (untilQuotes '"' true (dropFirstLineEnd cs)) (unescape true false) cs)
  | '\'' :: '\'' :: '\'' :: cs =>
    some (closedBody (untilQuotes '\'' false (dropFirstLineEnd cs)) (literal true) cs)
  | cs => lineText? cs

end PaneGrid.Toml
