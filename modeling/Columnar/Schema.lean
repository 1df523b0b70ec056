import Columnar.Column.Filter
import Columnar.Column.Order
import Columnar.Column.Search
import Columnar.Query

/-! # Schemas

A schema is the ordered set of columns of one table, with its primary key and, for a table whose
columns have no storage of their own, a fixed row count.
-/

namespace Columnar

/-- The columns of a table, in declaration order. -/
structure Schema where
  columns : List Column
  primaryKeys : List String := []
  fixedRowCount : Option UInt32 := none

namespace Schema

def width (s : Schema) : Nat := s.columns.length

/--
The number of rows a scan may visit: that of the shortest column with storage, or the fixed one if
it is less.
-/
def rowCount (s : Schema) : Nat :=
  ((s.fixedRowCount.map UInt32.toNat).toList ++ s.columns.filterMap Column.rowCount?).min?.getD 0

def find? (s : Schema) (name : String) : Option Nat := s.columns.findIdx? (·.name == name)

def visibleColumns (s : Schema) : List String := (s.columns.filter (!·.hidden)).map Column.name

def columnDefinition (c : Column) : String :=
  c.name ++ " " ++ c.columnType.name ++ if c.hidden then " HIDDEN" else ""

/-- The statement that declares the table. A table with a primary key has no row ids of its own. -/
def createTable (s : Schema) (table : String) : String :=
  let definitions := s.columns.map columnDefinition
  if s.primaryKeys.isEmpty then
    "CREATE TABLE " ++ table ++ "(" ++ ", ".intercalate definitions ++ ");"
  else
    let key := "PRIMARY KEY(" ++ ", ".intercalate s.primaryKeys ++ ")"
    "CREATE TABLE " ++ table ++ "(" ++ ", ".intercalate (definitions ++ [key]) ++
      ") WITHOUT ROWID;"

/--
The planning cost of a scan: the row count, unless a comparison with a sorted column does better.
Equality costs a binary search, and a range costs half the rows beside it.
-/
def estimateCost (s : Schema) (constraints : List Constraint) : Float :=
  let rows := Float.ofNat (max s.rowCount 1)
  let search := (rows + 1).log2
  let cost? (c : Constraint) : Option Float := do
    let column ← s.columns[c.column]?
    guard (c.op.isNarrowing && column.naturallyOrdered)
    return if c.op == .eq then search else rows / 2 + search
  (constraints.filterMap cost?).foldl (fun least cost => if cost < least then cost else least) rows

end Schema

end Columnar
