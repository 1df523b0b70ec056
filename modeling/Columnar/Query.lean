import Columnar.Operator
import Columnar.Value

/-! # Queries

A query on one table: constraints that must all hold, ORDER BY terms, and the columns to report.
Columns are named by their position in the schema.
-/

namespace Columnar

/-- A WHERE constraint on the values of one column. -/
structure Constraint where
  column : Nat
  op : Operator
  value : Value
  deriving DecidableEq

namespace Constraint

def eq (column : Nat) (value : Value) : Constraint := ⟨column, .eq, value⟩
def gt (column : Nat) (value : Value) : Constraint := ⟨column, .gt, value⟩
def ge (column : Nat) (value : Value) : Constraint := ⟨column, .ge, value⟩
def lt (column : Nat) (value : Value) : Constraint := ⟨column, .lt, value⟩
def le (column : Nat) (value : Value) : Constraint := ⟨column, .le, value⟩

end Constraint

structure OrderTerm where
  column : Nat
  descending : Bool
  deriving DecidableEq

structure Query where
  constraints : List Constraint := []
  /-- ORDER BY terms, the most significant first. -/
  order : List OrderTerm := []
  /-- The columns to report; none named means all of them. -/
  columns : List Nat := []
  deriving DecidableEq

def Query.isUnordered (q : Query) : Bool := q.order.isEmpty

end Columnar
