/-! Finite floats as exact numbers `significand * 2 ^ exponent`. -/

namespace PaneGrid

/-- The absolute value of a finite float. -/
structure Binary where
  significand : Nat
  exponent : Int
  /-- The neighbour below is half as far away as the neighbour above. -/
  narrowBelow : Bool
deriving DecidableEq, Repr

namespace Binary

/-- NaN and the infinities are no such values: test for them first. -/
def ofFloat (x : Float) : Binary :=
  let bits := x.toBits
  let field := ((bits >>> 52) &&& 0x7FF).toNat
  let fraction := (bits &&& 0xFFFFFFFFFFFFF).toNat
  if field = 0 then ⟨fraction, -1074, false⟩
  else ⟨Nat.pow 2 52 + fraction, (field : Int) - 1075, fraction = 0 && 1 < field⟩

/-- The value times `10 ^ places` as a fraction of naturals. -/
def scaled (x : Binary) (places : Int) : Nat × Nat :=
  (x.significand * Nat.pow 2 x.exponent.toNat * Nat.pow 10 places.toNat,
    Nat.pow 2 (-x.exponent).toNat * Nat.pow 10 (-places).toNat)

end Binary

/-- Sign bit of a float; it is set for negative zero too. -/
def signBit (x : Float) : Bool := x.toBits >>> 63 = 1

end PaneGrid
