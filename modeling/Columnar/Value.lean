import Columnar.Binary64.Decimal

/-! # SQL values

The dynamically typed values of the SQL engine: literals of constraints and reported results.
-/

namespace Columnar

inductive ValueKind where
  | integer
  | float
  | text
  | null
  deriving DecidableEq

def ValueKind.name : ValueKind → String
  | .integer => "integer"
  | .float => "float"
  | .text => "text"
  | .null => "null"

/-- A dynamically typed SQL value. -/
inductive Value where
  | integer (value : Int64)
  | float (value : Binary64)
  | text (value : String)
  | null
  deriving DecidableEq

namespace Value

def kind : Value → ValueKind
  | .integer _ => .integer
  | .float _ => .float
  | .text _ => .text
  | .null => .null

def isNull (v : Value) : Bool := v.kind == .null

/-- Whether a number column can be compared with the value. -/
def isNumeric (v : Value) : Bool := v.kind == .integer || v.kind == .float

def asInteger? : Value → Option Int64
  | .integer value => some value
  | _ => none

/-- The value as a double, an integer being rounded to the nearest one. -/
def asFloat? : Value → Option Binary64
  | .integer value => some (.ofInt value.toInt)
  | .float value => some value
  | _ => none

def asText? : Value → Option String
  | .text value => some value
  | _ => none

/-- Equality of two values of one kind. Doubles compare as numbers, so NaN differs from itself. -/
def equals : Value → Value → Bool
  | .integer a, .integer b => a == b
  | .float a, .float b => a.compare? b == some .eq
  | .text a, .text b => a == b
  | .null, .null => true
  | _, _ => false

/-- The value as an SQL literal. Quotes inside a text are left as they are. -/
def toText : Value → String
  | .integer value => Int.repr value.toInt
  | .float value => value.toText
  | .text value => "'" ++ value ++ "'"
  | .null => "NULL"

end Value

end Columnar
