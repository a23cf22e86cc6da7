import PaneGrid.Decimal.Shortest

/-! How a selected decimal is written out: positionally or with an exponent, and what stands
for the values that have no digits. -/

namespace PaneGrid

namespace Decimal

def digitText (d : Decimal) : String := toString d.digits

/-- Exponent of the leading digit. -/
def leading (d : Decimal) : Int := d.exponent + d.digitText.length - 1

/-- Digits around a point, `whole` telling whether a whole number gets a point and a zero. -/
def positional (d : Decimal) (whole : Bool) : String :=
  let digits := d.digitText.toList
  let point := d.leading + 1
  if 0 ≤ d.exponent then
    d.digitText ++ String.ofList (List.replicate d.exponent.toNat '0') ++ if whole then ".0" else ""
  else if 0 < point then
    String.ofList (digits.take point.toNat) ++ "." ++ String.ofList (digits.drop point.toNat)
  else
    "0." ++ String.ofList (List.replicate (-point).toNat '0') ++ d.digitText

/-- One digit before the point, then the exponent of ten. -/
def scientific (d : Decimal) : String :=
  match d.digitText.toList with
  | [] => ""
  | [c] => s!"{c}e{d.leading}"
  | c :: rest => s!"{c}.{String.ofList rest}e{d.leading}"

end Decimal

/-- The choices of one number format. -/
structure NumberStyle where
  tie : Tie
  /-- Whole numbers end in a point and a zero. -/
  pointZero : Bool
  /-- Leading exponents that are written without an exponent mark. -/
  plain : Int → Bool
  nan : String
  infinity : String

namespace NumberStyle

def magnitude (style : NumberStyle) (x : Float) : String :=
  if x.isInf then style.infinity
  else
    let b := Binary.ofFloat x
    let d := if b.significand = 0 then ⟨0, 0⟩ else b.shortest style.tie
    if style.plain d.leading then d.positional style.pointZero else d.scientific

def render (style : NumberStyle) (x : Float) : String :=
  if x.isNaN then style.nan
  else (if signBit x then "-" else "") ++ style.magnitude x

end NumberStyle

/-- Numbers in messages and answers: never an exponent, no point on whole numbers. -/
def plainNumber : NumberStyle where
  tie := .up
  pointZero := false
  plain _ := true
  nan := "NaN"
  infinity := "inf"

/-- A number with a fixed count of decimal places; the exact value is rounded, a tie to even. -/
def fixedPlaces (places : Nat) (x : Float) : String :=
  if x.isNaN then "NaN"
  else
    let sign := if signBit x then "-" else ""
    if x.isInf then sign ++ "inf"
    else
      let (num, den) := (Binary.ofFloat x).scaled places
      let digits := (toString (roundDiv num den .toEven)).toList
      let padded := List.replicate (places + 1 - digits.length) '0' ++ digits
      let cut := padded.length - places
      let point := if places = 0 then "" else "."
      sign ++ String.ofList (padded.take cut) ++ point ++ String.ofList (padded.drop cut)

end PaneGrid
