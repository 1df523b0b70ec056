/-! # Binary64 numbers

A double is kept as its IEEE 754 word. Numbers are ordered through an integer key that grows with
their value, so no machine floating point is involved. Integers become doubles by rounding to the
nearest one, a tie going to the even significand.
-/

namespace Columnar

/-- A double, as its IEEE 754 word. -/
structure Binary64 where
  bits : UInt64
  deriving DecidableEq

namespace Binary64

/-- The weight of the sign bit, two to the 63rd. -/
def signWeight : Nat := 0x8000000000000000

/-- The weight of the lowest exponent bit, two to the 52nd. -/
def exponentWeight : Nat := 0x10000000000000

def infinityWord : Nat := 2047 * exponentWeight

/-- The word whose low 63 bits are `magnitude`, negated on demand. -/
def ofMagnitude (negative : Bool) (magnitude : Nat) : Binary64 :=
  ⟨UInt64.ofNat (if negative then signWeight + magnitude else magnitude)⟩

/-- Whether the sign bit is set, which it may be for a zero and for NaN as well. -/
def isNegative (x : Binary64) : Bool := decide (signWeight ≤ x.bits.toNat)

def magnitude (x : Binary64) : Nat := x.bits.toNat % signWeight

def isNaN (x : Binary64) : Bool := decide (infinityWord < x.magnitude)

def isInfinite (x : Binary64) : Bool := x.magnitude == infinityWord

def exponentField (x : Binary64) : Nat := x.magnitude / exponentWeight

/-- The significand with its implicit leading bit, which subnormal numbers lack. -/
def significand (x : Binary64) : Nat :=
  x.magnitude % exponentWeight + if x.exponentField = 0 then 0 else exponentWeight

/-- A finite number is its significand times two to this power. -/
def exponent (x : Binary64) : Int := (max x.exponentField 1 : Nat) - 1075

/--
The signed magnitude. The words of numbers of one sign grow with the numbers they stand for, up to
infinity, so the key orders all numbers; both zeros have key 0.
-/
def key (x : Binary64) : Int := if x.isNegative then -x.magnitude else x.magnitude

/-- Numeric order, in which NaN stands in no relation to anything. -/
def compare? (x y : Binary64) : Option Ordering :=
  if x.isNaN || y.isNaN then none else some (compare x.key y.key)

/-- Total order for sorting: NaN of either sign comes after every number, and all NaNs tie. -/
def sortCompare (x y : Binary64) : Ordering :=
  match x.isNaN, y.isNaN with
  | true, true => .eq
  | true, false => .gt
  | false, true => .lt
  | false, false => compare x.key y.key

/-- The quotient rounded to the nearest integer, a half going to the even one. -/
def divRound (n d : Nat) : Nat :=
  if d < 2 * (n % d) ∨ 2 * (n % d) = d ∧ n / d % 2 = 1 then n / d + 1 else n / d

/--
The magnitude of the double nearest to `n`. The leading bit of the rounded significand adds one to
the exponent field, and so does the carry of a significand that rounds up to a power of two.
-/
def roundMagnitude (n : Nat) : Nat :=
  if n = 0 then 0
  else
    let significand :=
      if n.log2 ≤ 52 then n * Nat.pow 2 (52 - n.log2) else divRound n (Nat.pow 2 (n.log2 - 52))
    min ((n.log2 + 1022) * exponentWeight + significand) infinityWord

/-- The double nearest to an integer, a tie going to the even significand. -/
def ofInt (i : Int) : Binary64 := ofMagnitude (decide (i < 0)) (roundMagnitude i.natAbs)

/-- The integer part of a finite number's magnitude. -/
def wholePart (x : Binary64) : Nat :=
  if 0 ≤ x.exponent then x.significand * Nat.pow 2 x.exponent.toNat
  else x.significand / Nat.pow 2 (-x.exponent).toNat

/-- The nearest integer towards zero that fits 128 signed bits; NaN gives zero. -/
def toInt128 (x : Binary64) : Int :=
  if x.isNaN then 0
  else if x.isNegative then max (-(x.wholePart : Int)) (-0x80000000000000000000000000000000)
  else min (x.wholePart : Int) 0x7fffffffffffffffffffffffffffffff

/-- The least finite double. -/
def least : Binary64 := ofMagnitude true (infinityWord - 1)

/-- The greatest finite double. -/
def greatest : Binary64 := ofMagnitude false (infinityWord - 1)

end Binary64

end Columnar
