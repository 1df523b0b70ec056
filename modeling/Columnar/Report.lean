import Columnar.Value

/-! # Reports

A scan reports its rows as a sequence of calls to a sink: each row is begun, and then its values
follow one by one. The collector is the sink that gathers the values of each row.
-/

namespace Columnar

inductive SinkCall where
  | beginRow (row : Nat)
  | value (value : Value)
  deriving DecidableEq

def SinkCall.value? : SinkCall → Option Value
  | .beginRow _ => none
  | .value v => some v

/-- A collected row with its values, in the order in which they were reported. -/
structure ResultRow where
  row : Nat
  values : List Value
  deriving DecidableEq

structure Collector where
  rows : List ResultRow := []
  deriving DecidableEq

namespace Collector

/-- Adds a value to the last row; a value before all rows opens row 0. -/
def addValue (v : Value) : List ResultRow → List ResultRow
  | [] => [⟨0, [v]⟩]
  | [last] => [{ last with values := last.values ++ [v] }]
  | row :: next :: rows => row :: addValue v (next :: rows)

def receive (c : Collector) : SinkCall → Collector
  | .beginRow row => ⟨c.rows ++ [⟨row, []⟩]⟩
  | .value v => ⟨addValue v c.rows⟩

def ofCalls (calls : List SinkCall) : Collector := calls.foldl receive {}

def length (c : Collector) : Nat := c.rows.length

def isEmpty (c : Collector) : Bool := c.rows.isEmpty

def rowIndices (c : Collector) : List Nat := c.rows.map ResultRow.row

/-- The values at one position of every row that has it. -/
def columnValues (c : Collector) (position : Nat) : List Value :=
  c.rows.filterMap (·.values[position]?)

end Collector

end Columnar
