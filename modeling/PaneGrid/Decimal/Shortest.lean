import PaneGrid.Decimal.Binary

/-! The decimal with the fewest digits that reads back as a given float, and
rounding of a quotient to an integer. Everything is exact arithmetic on naturals. -/

namespace PaneGrid

/-- The number `digits * 10 ^ exponent`. -/
structure Decimal where
  digits : Nat
  exponent : Int
deriving DecidableEq, Repr

/-- What a rounding does with a value halfway between two candidates. -/
inductive Tie where
  | toEven
  | up
deriving DecidableEq, Repr

/-- The integer nearest to `num / den`. -/
def roundDiv (num den : Nat) (tie : Tie) : Nat :=
  let q := num / den
  match compare (2 * (num % den)) den, tie with
  | .lt, _ => q
  | .gt, _ => q + 1
  | .eq, .up => q + 1
  | .eq, .toEven => q + q % 2

namespace Decimal

/-- Moves trailing zeros of the digits into the exponent; `fuel` bounds their number. -/
def stripZeros : Nat → Decimal → Decimal
  | 0, d => d
  | fuel + 1, d =>
    if d.digits ≠ 0 ∧ d.digits % 10 = 0 then stripZeros fuel ⟨d.digits / 10, d.exponent + 1⟩ else d

end Decimal

namespace Binary

/-- Compares `a * 10 ^ i` with `n * 2 ^ j`. -/
def compareScaled (a : Nat) (i : Int) (n : Nat) (j : Int) : Ordering :=
  compare (a * Nat.pow 10 i.toNat * Nat.pow 2 (-j).toNat)
    (n * Nat.pow 2 j.toNat * Nat.pow 10 (-i).toNat)

/-- The decimal lies among the reals that round to `x`: between the midpoints to both
neighbours, which themselves belong to the even one of two neighbours. -/
def readsBack (x : Binary) (d : Decimal) : Bool :=
  let low := 4 * x.significand - if x.narrowBelow then 1 else 2
  let high := 4 * x.significand + 2
  let closed := x.significand % 2 = 0
  let fromLow := compareScaled d.digits d.exponent low (x.exponent - 2)
  let fromHigh := compareScaled d.digits d.exponent high (x.exponent - 2)
  (fromLow = .gt || (closed && fromLow = .eq)) && (fromHigh = .lt || (closed && fromHigh = .eq))

/-- The least `k` with `x < 10 ^ k`, for a nonzero `x`. The binary logarithm gives it up to one. -/
def magnitude (x : Binary) : Int :=
  let estimate := ((x.significand.log2 : Int) + x.exponent) * 30103 / 100000
  let candidates := [estimate - 1, estimate, estimate + 1]
  (candidates.find? fun k => compareScaled 1 k x.significand x.exponent = .gt).getD (estimate + 2)

/-- The neighbour of `x` on the grid of multiples of `10 ^ grid` that reads back, if one does;
the nearer one if both do. -/
def onGrid (x : Binary) (tie : Tie) (grid : Int) : Option Decimal :=
  let (num, den) := x.scaled (-grid)
  let below : Decimal := ⟨num / den, grid⟩
  let above : Decimal := ⟨num / den + 1, grid⟩
  match x.readsBack below, x.readsBack above with
  | true, true => some ⟨roundDiv num den tie, grid⟩
  | true, false => some below
  | false, true => some above
  | false, false => none

/-- The fewest digits that read back as `x`, and of those the nearest to it. Seventeen digits
always suffice; the exact value stands for the case that they did not. -/
def shortest (x : Binary) (tie : Tie) : Decimal :=
  let grids := (List.range 17).map fun n => x.magnitude - (n + 1 : Nat)
  let places := (-x.exponent).toNat
  let exact : Decimal := ⟨(x.scaled places).1 / Nat.pow 2 places, -places⟩
  let found := (grids.findSome? (x.onGrid tie)).getD exact
  found.stripZeros (found.digits.log2 + 1)

end Binary

end PaneGrid
