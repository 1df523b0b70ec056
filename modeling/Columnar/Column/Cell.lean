import Columnar.Column.IntType
import Columnar.Operator
import Columnar.Text
import Columnar.Value

/-! # Cells

A cell is what a row holds in a column, stored or computed. Filters compare it with a literal, sorts
compare it with other cells of its column, and a scan reports it as an SQL value.
-/

namespace Columnar

/-- What a row holds in a column. All cells of one column are of one kind. -/
inductive Cell where
  | integer (value : Int)
  | float (value : Binary64)
  | text (value : String)
  deriving DecidableEq

namespace Cell

/-- The cell as a double, an integer being rounded to the nearest one. -/
def asFloat? : Cell → Option Binary64
  | .integer value => some (.ofInt value)
  | .float value => some value
  | .text _ => none

/-- The cell as an integer of 128 bits, a double losing its fraction. -/
def asInt128? : Cell → Option Int
  | .integer value => some value
  | .float value => some value.toInt128
  | .text _ => none

/--
How the cell stands to a literal. Two integers compare exactly and any other two numbers as doubles;
text and null stand in no relation to a cell.
-/
def standing (c : Cell) (literal : Value) : Option Ordering :=
  match c, literal with
  | .integer stored, .integer value => some (compare stored value.toInt)
  | c, literal =>
    match c.asFloat?, literal.asFloat? with
    | some stored, some value => stored.compare? value
    | _, _ => none

def satisfies (c : Cell) (op : Operator) (literal : Value) : Bool := op.holds (c.standing literal)

/-- A number that orders the kinds of cells. -/
def rank : Cell → Nat
  | .integer _ => 0
  | .float _ => 1
  | .text _ => 2

/-- The order in which ascending ORDER BY terms put the cells of a column. -/
def sortCompare : Cell → Cell → Ordering
  | .integer a, .integer b => compare a b
  | .float a, .float b => a.sortCompare b
  | .text a, .text b => Text.compare a b
  | a, b => compare a.rank b.rank

/--
The SQL value of a cell. An integer beyond 64 signed bits becomes the nearest double, and empty text
stands for an absent value.
-/
def report : Cell → Value
  | .integer value =>
    if IntType.int64.admits value then .integer (Int64.ofInt value) else .float (.ofInt value)
  | .float value => .float value
  | .text value => if value.isEmpty then .null else .text value

end Cell

end Columnar
