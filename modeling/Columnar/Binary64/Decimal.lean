import Columnar.Binary64.Basic

/-! # Decimal text of doubles

The text of a double has the fewest significant digits that still round to it, the nearest such
decimal, and of two equally near ones the greater. It is written positionally whatever its size,
without an exponent and without a fraction of zero.

The search works on exact natural numbers. For each count of digits only the two neighbours of the
value on that decimal grid can be the answer, and the first grid with a neighbour in the interval
that rounds to the value wins.
-/

namespace Columnar.Binary64

/-- A positive decimal `coefficient * 10 ^ exponent`. -/
structure Decimal where
  coefficient : Nat
  exponent : Int
  deriving DecidableEq

def digitCount (n : Nat) : Nat := (Nat.toDigits 10 n).length

/-- The count of digits before the point, below zero when zeros follow the point. -/
def decimalExponent (x : Binary64) : Int :=
  -- scaled by `10 ^ 400`, every positive double has a whole part
  let scaled :=
    if 0 ≤ x.exponent then x.significand * Nat.pow 2 x.exponent.toNat * Nat.pow 10 400
    else x.significand * Nat.pow 10 400 / Nat.pow 2 (-x.exponent).toNat
  digitCount scaled - 400

/--
The neighbour of a positive number on the grid of the multiples of `10 ^ j` that rounds to it, the
nearer one if both do. Distances are counted in a unit that makes them whole: the number stands at
`4 * significand` quarters of its last place, and it owns half a place above it and below it, a
quarter below a power of two. The ends of that interval belong to an even significand.
-/
def gridNeighbour? (x : Binary64) (j : Int) : Option Nat :=
  let place := Nat.pow 2 x.exponent.toNat * Nat.pow 10 (-j).toNat
  let step := 4 * Nat.pow 2 (-x.exponent).toNat * Nat.pow 10 j.toNat
  let target := 4 * x.significand * place
  let below := if x.significand = exponentWeight ∧ 1 < x.exponentField then place else 2 * place
  let above := 2 * place
  let inside (distance reach : Nat) : Bool :=
    decide (distance < reach) || (x.significand % 2 == 0 && distance == reach)
  let low := target / step
  let lowInside := decide (0 < low) && inside (target - low * step) below
  let highInside := inside ((low + 1) * step - target) above
  match lowInside, highInside with
  | true, true => some (if 2 * target < (2 * low + 1) * step then low else low + 1)
  | true, false => some low
  | false, true => some (low + 1)
  | false, false => none

/-- The shortest decimal of a positive finite number. Seventeen digits always suffice. -/
def shortest (x : Binary64) : Decimal :=
  let top := x.decimalExponent
  let grids := (List.range 17).map fun (d : Nat) => top - 1 - (d : Int)
  match grids.findSome? fun j => (x.gridNeighbour? j).map (Decimal.mk · j) with
  | some decimal => decimal
  | none => ⟨0, 0⟩

/-- Positional notation. A fraction ends in a digit other than zero, or is left out. -/
def Decimal.positional (d : Decimal) : List Char :=
  let digits := Nat.toDigits 10 d.coefficient
  if 0 ≤ d.exponent then digits ++ List.replicate d.exponent.toNat '0'
  else
    let places := (-d.exponent).toNat
    let padded := List.replicate (places + 1 - digits.length) '0' ++ digits
    let whole := padded.take (padded.length - places)
    let fraction := padded.drop (padded.length - places)
    match (fraction.reverse.dropWhile (· == '0')).reverse with
    | [] => whole
    | kept => whole ++ '.' :: kept

def toText (x : Binary64) : String :=
  if x.isNaN then "NaN"
  else
    let unsigned :=
      if x.isInfinite then "inf"
      else if x.magnitude = 0 then "0"
      else String.ofList x.shortest.positional
    if x.isNegative then "-" ++ unsigned else unsigned

end Columnar.Binary64
