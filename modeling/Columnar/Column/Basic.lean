import Columnar.Bounds
import Columnar.Column.Element
import Columnar.RowId

/-! # Columns

A column is a read-only view of storage. There are four kinds: stored numbers, text interned in a
table of strings, end times computed from start and duration, and the ids of a table's rows. What a
column holds is given row by row by `cell?`, which is undefined past the end of the data.
-/

namespace Columnar

inductive Column where
  /-- Stored numbers. `ordered` promises that they ascend. -/
  | numeric (name : String) (type : ElementType) (values : Array type.Elem)
      (hidden ordered : Bool)
  /-- Text by its position in a table of strings. -/
  | text (name : String) (ids : Array Nat) (strings : Array String) (hidden : Bool)
  /-- The sum of start and duration, held within 64 signed bits. -/
  | endTime (name : String) (starts durations : Array Int64)
  /-- The ids of the rows of one table, which take no storage. -/
  | rowId (name : String) (table : UInt8)

namespace Column

def name : Column → String
  | numeric name .. | text name .. | endTime name .. | rowId name .. => name

/-- Whether the column is left out where all columns are asked for by name. -/
def hidden : Column → Bool
  | numeric _ _ _ hidden _ | text _ _ _ hidden => hidden
  | endTime .. | rowId .. => false

/-- Whether the column promises that its cells ascend with the row. -/
def naturallyOrdered : Column → Bool
  | numeric _ _ _ _ ordered => ordered
  | text .. | endTime .. | rowId .. => false

def columnType : Column → ColumnType
  | numeric _ type .. => type.columnType
  | text .. => .string
  | endTime .. | rowId .. => .ulong

/-- The number of rows in storage; none for a column that has no storage. -/
def rowCount? : Column → Option Nat
  | numeric _ _ values .. => some (rowLength values.size)
  | text _ ids .. => some (rowLength ids.size)
  | endTime _ starts durations => some (rowLength (min starts.size durations.size))
  | rowId .. => none

/-- The cell at a row, unless the row or its string lies past the end of the data. -/
def cell? : Column → Nat → Option Cell
  | numeric _ type values _ _, row => values[row]?.map type.cell
  | text _ ids strings _, row => do
    let id ← ids[row]?
    let string ← strings[id]?
    return .text string
  | endTime _ starts durations, row => do
    let start ← starts[row]?
    let duration ← durations[row]?
    return .integer (IntType.int64.clamp (start.toInt + duration.toInt))
  | rowId _ table, row => some (.integer (RowId.encode ⟨table, UInt32.ofNat row⟩).toNat)

def report? (c : Column) (row : Nat) : Option Value := (c.cell? row).map Cell.report

/-- Whether the cells are numbers, which constraints of a scan are tested on. -/
def isNumeric : Column → Bool
  | text .. => false
  | numeric .. | endTime .. | rowId .. => true

end Column

end Columnar
