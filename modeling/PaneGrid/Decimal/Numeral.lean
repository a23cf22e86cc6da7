/-! Reading numbers from text. A numeral is an optional sign followed by `inf`, `infinity` or `nan`
in any letter case, or by digits with an optional point and an optional exponent; digits are
needed on at least one side of the point. -/

namespace PaneGrid

namespace Numeral

def infinity : Float := Float.ofBits 0x7FF0000000000000

def nan : Float := Float.ofBits 0x7FF8000000000000

/-- Value of a run of decimal digits. -/
def digitsValue (cs : List Char) : Nat :=
  cs.foldl (fun n c => 10 * n + (c.toNat - '0'.toNat)) 0

/-- The float nearest to `digits * 10 ^ exponent`. Beyond the outer exponents the answer is known
without computing the power. -/
def nearest (digits : Nat) (exponent : Int) : Float :=
  let leading := exponent + (toString digits).length
  if digits = 0 ∨ leading < -330 then 0
  else if 310 < leading then infinity
  else Float.ofScientific digits (exponent < 0) exponent.natAbs

def splitSign : List Char → Bool × List Char
  | '+' :: cs => (false, cs)
  | '-' :: cs => (true, cs)
  | cs => (false, cs)

def withSign (negative : Bool) (x : Float) : Float := if negative then -x else x

/-- The exponent that follows the digits: nothing, or a mark, an optional sign and digits. -/
def exponent? : List Char → Option Int
  | [] => some 0
  | c :: cs =>
    let (negative, ds) := splitSign cs
    if (c = 'e' ∨ c = 'E') ∧ ds ≠ [] ∧ ds.all Char.isDigit then
      some (if negative then -(digitsValue ds : Int) else digitsValue ds)
    else none

def decimal? (cs : List Char) : Option Float :=
  let whole := cs.takeWhile Char.isDigit
  let rest := cs.dropWhile Char.isDigit
  let (fraction, rest) := match rest with
    | '.' :: r => (r.takeWhile Char.isDigit, r.dropWhile Char.isDigit)
    | r => ([], r)
  if whole = [] ∧ fraction = [] then none
  else (exponent? rest).map fun e => nearest (digitsValue (whole ++ fraction)) (e - fraction.length)

def magnitude? (cs : List Char) : Option Float :=
  match String.ofList (cs.map Char.toLower) with
  | "inf" | "infinity" => some infinity
  | "nan" => some nan
  | _ => decimal? cs

end Numeral

/-- The float a word stands for. -/
def readNumber? (word : String) : Option Float :=
  let (negative, cs) := Numeral.splitSign word.toList
  (Numeral.magnitude? cs).map (Numeral.withSign negative)

end PaneGrid
