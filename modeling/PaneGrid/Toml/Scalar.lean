import PaneGrid.Decimal.Numeral
import PaneGrid.Text.Hex
import PaneGrid.Toml.Text

/-! Unquoted values: booleans, numbers, dates and times. -/

namespace PaneGrid.Toml

/-- Every underscore stands between two digits; `afterDigit` tells whether a digit stands right
before the text. -/
def underscoresFit (isDigit : Char → Bool) : (afterDigit : Bool) → List Char → Bool
  | _, [] => true
  | afterDigit, '_' :: cs => afterDigit && cs.head?.any isDigit && underscoresFit isDigit false cs
  | _, c :: cs => underscoresFit isDigit (isDigit c) cs

def hasLeadingZero : List Char → Bool
  | '0' :: c :: _ => c.isDigit || c = '_'
  | _ => false

def negateIf (negative : Bool) (n : Nat) : Int := if negative then -(n : Int) else n

/-- Integers are held as long as they fit into 128 bits, with or without sign. -/
def integerValue (n : Int) : Value :=
  if -Int.pow 2 127 ≤ n ∧ n < Int.pow 2 128 then .integer n else .unreadable

/-- The value of a decimal numeral, which is unreadable if it overflows. -/
def floatValue (negative : Bool) (x : Float) : Value :=
  if x.isInf then .unreadable else .float (Numeral.withSign negative x)

def withoutUnderscores (cs : List Char) : List Char := cs.filter (· ≠ '_')

/-- Digits in another base than ten, possibly none. -/
def based? (base : Nat) (cs : List Char) : Option Value := do
  let ds ← (withoutUnderscores cs).mapM Hex.digitValue?
  if ds.any (base ≤ ·) || !underscoresFit Hex.isDigit false cs then failure
  let n := ds.foldl (fun n d => base * n + d) 0
  return if ds = [] then .unreadable else integerValue n

/-- A decimal integer without its sign. From the first underscore on it may hold characters that are
no digits, and is unreadable then; an underscore may stand between hexadecimal digits as well. -/
def whole? (negative : Bool) (cs : List Char) : Option Value := do
  if cs = [] || hasLeadingZero cs || cs.contains ' ' then failure
  if !(cs.dropWhile Char.isDigit).head?.all (· = '_') then failure
  if !underscoresFit Hex.isDigit false cs then failure
  let ds := withoutUnderscores cs
  return if ds.all Char.isDigit then integerValue (negateIf negative (Numeral.digitsValue ds))
    else .unreadable

/-- A numeral without its sign that has a point, an exponent or both. A point has a digit on either
side. -/
def decimal? (negative : Bool) (cs : List Char) : Option Value := do
  if hasLeadingZero cs || !underscoresFit Char.isDigit false cs then failure
  let cs := withoutUnderscores cs
  let enclosed := match cs.dropWhile Char.isDigit with
    | '.' :: rest => rest.head?.any Char.isDigit
    | _ => true
  if !(cs.head?.any Char.isDigit && enclosed) then failure
  (Numeral.decimal? cs).map (floatValue negative)

def number? : List Char → Option Value
  | '0' :: 'x' :: ds => based? 16 ds
  | '0' :: 'o' :: ds => based? 8 ds
  | '0' :: 'b' :: ds => based? 2 ds
  | cs =>
    let (negative, rest) := Numeral.splitSign cs
    match rest with
    | ['i', 'n', 'f'] => some (.float (Numeral.withSign negative Numeral.infinity))
    | ['n', 'a', 'n'] => some (.float Numeral.nan)
    | _ =>
      if rest.any fun c => c = '.' || c = 'e' || c = 'E' then decimal? negative rest
      else whole? negative rest

/-- A number of exactly as many digits as asked for. -/
def fixedDigits? (count : Nat) (cs : List Char) : Option (Nat × List Char) :=
  let ds := cs.take count
  if ds.length = count ∧ ds.all Char.isDigit then some (Numeral.digitsValue ds, cs.drop count)
  else none

def expect? (c : Char) : List Char → Option (List Char)
  | d :: cs => if c = d then some cs else none
  | [] => none

def daysIn (year month : Nat) : Nat :=
  if month = 2 then
    if year % 4 = 0 ∧ (year % 100 ≠ 0 ∨ year % 400 = 0) then 29 else 28
  else if month = 4 ∨ month = 6 ∨ month = 9 ∨ month = 11 then 30
  else 31

def date? (cs : List Char) : Option (List Char) := do
  let (year, cs) ← fixedDigits? 4 cs
  let (month, cs) ← fixedDigits? 2 (← expect? '-' cs)
  let (day, cs) ← fixedDigits? 2 (← expect? '-' cs)
  if 1 ≤ month ∧ month ≤ 12 ∧ 1 ≤ day ∧ day ≤ daysIn year month then some cs else none

/-- Optional seconds with an optional fraction. -/
def seconds? : List Char → Option (List Char)
  | ':' :: cs => do
    let (second, cs) ← fixedDigits? 2 cs
    if 60 < second then failure
    match cs with
    | '.' :: ds =>
      if (ds.takeWhile Char.isDigit).isEmpty then none else some (ds.dropWhile Char.isDigit)
    | _ => return cs
  | cs => some cs

def clock? (cs : List Char) : Option (List Char) := do
  let (hour, cs) ← fixedDigits? 2 cs
  let (minute, cs) ← fixedDigits? 2 (← expect? ':' cs)
  if hour ≤ 23 ∧ minute ≤ 59 then some cs else none

def offset? : List Char → Option (List Char)
  | [] => some []
  | 'Z' :: cs | 'z' :: cs => some cs
  | '+' :: cs | '-' :: cs => clock? cs
  | _ => none

/-- A date, a time of day, or a date and time with an optional offset, and nothing after it. -/
def isMoment (cs : List Char) : Bool :=
  let complete (rest : Option (List Char)) : Bool := rest = some []
  match date? cs with
  | some [] => true
  | some (c :: rest) =>
    (c = 'T' || c = 't' || c = ' ') && complete (((clock? rest).bind seconds?).bind offset?)
  | none => complete ((clock? cs).bind seconds?)

/-- The value of an unquoted word. -/
def scalar (word : List Char) : Except Cause Value :=
  match String.ofList word with
  | "true" => .ok (.boolean true)
  | "false" => .ok (.boolean false)
  | text =>
    if isMoment word then .ok (.moment text)
    else
      match number? word with
      | some v => .ok v
      | none => .error .malformedValue

/-- Neither a space nor a character that ends an unquoted value. -/
def isWordChar (c : Char) : Bool := !"=,[]\x7b\x7d# \t\r\n".contains c

/-- After the spaces ahead an unquoted value goes on, as a date does with a time. -/
def goesOn (cs : List Char) : Bool :=
  (cs.dropWhile isSpace).head?.any fun c => isWordChar c && !".'\"".contains c

/-- Splits off an unquoted value; `gap` tells that it is known to go on after the spaces ahead. -/
def takeWord : (gap : Bool) → List Char → List Char × List Char
  | _, [] => ([], [])
  | gap, c :: cs =>
    let isGap := isSpace c && (gap || goesOn cs)
    if isWordChar c || isGap then
      let (word, rest) := takeWord isGap cs
      (c :: word, rest)
    else ([], c :: cs)

end PaneGrid.Toml
