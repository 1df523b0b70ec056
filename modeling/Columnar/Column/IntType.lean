/-! # Stored integer types

The fixed-width integer types a column may store, as ranges of integers.
-/

namespace Columnar

inductive IntType where
  | int8
  | int32
  | uint8
  | uint32
  | int64
  | uint64
  deriving DecidableEq

namespace IntType

def least : IntType → Int
  | .int8 => -0x80
  | .int32 => -0x80000000
  | .int64 => -0x8000000000000000
  | .uint8 | .uint32 | .uint64 => 0

def greatest : IntType → Int
  | .int8 => 0x7f
  | .int32 => 0x7fffffff
  | .int64 => 0x7fffffffffffffff
  | .uint8 => 0xff
  | .uint32 => 0xffffffff
  | .uint64 => 0xffffffffffffffff

theorem least_le_greatest (t : IntType) : t.least ≤ t.greatest := by
  cases t <;> decide

def Elem (t : IntType) : Type := { v : Int // t.least ≤ v ∧ v ≤ t.greatest }

def admits (t : IntType) (v : Int) : Bool := decide (t.least ≤ v) && decide (v ≤ t.greatest)

/-- The integer as an element of the type, if it fits. -/
def elem? (t : IntType) (v : Int) : Option t.Elem :=
  if h : t.least ≤ v ∧ v ≤ t.greatest then some ⟨v, h⟩ else none

/-- The integer of the type that is nearest to the given one. -/
def clamp (t : IntType) (v : Int) : Int := max t.least (min v t.greatest)

end IntType

end Columnar
