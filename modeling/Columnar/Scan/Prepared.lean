import Columnar.Schema

/-! # Prepared queries

Before a scan starts, every column that the query names by position is looked up. A query that names
an unknown column is rejected here, so the later steps work on columns and cannot fail for lack of
one.
-/

namespace Columnar

/-- Why a scan was rejected. Unknown columns come with the width of the schema. -/
inductive ScanError where
  | unknownConstraintColumn (column width : Nat)
  | unknownSortColumn (column width : Nat)
  | unknownOutputColumn (column width : Nat)
  | contract (violation : ContractViolation)
  deriving DecidableEq

namespace ScanError

def code : ScanError → String
  | .contract _ => ContractViolation.code
  | _ => "SCAN_UNKNOWN_COLUMN"

def isFatal : ScanError → Bool
  | .contract violation => violation.isFatal
  | _ => false

def unknownColumnText (role : String) (column width : Nat) : String :=
  role ++ " column " ++ Nat.repr column ++ " but the schema has " ++ Nat.repr width ++ " columns"

def toText : ScanError → String
  | .unknownConstraintColumn column width => unknownColumnText "Constraint on" column width
  | .unknownSortColumn column width => unknownColumnText "Order by" column width
  | .unknownOutputColumn column width => unknownColumnText "Output" column width
  | .contract violation => violation.toText

end ScanError

structure Condition where
  column : Column
  op : Operator
  value : Value

structure Prepared where
  conditions : List Condition
  keys : List SortKey
  outputs : List Column

namespace Schema

/-- The column at a position, or the error for a position without one. -/
def columnOr (s : Schema) (error : Nat → Nat → ScanError) (position : Nat) :
    Except ScanError Column :=
  match s.columns[position]? with
  | some column => .ok column
  | none => .error (error position s.width)

/-- Looks up constraint columns, then ORDER BY columns, then output columns. -/
def prepare (s : Schema) (q : Query) : Except ScanError Prepared := do
  let conditions ← q.constraints.mapM fun c => do
    return (⟨← s.columnOr .unknownConstraintColumn c.column, c.op, c.value⟩ : Condition)
  let keys ← q.order.mapM fun term => do
    return (⟨← s.columnOr .unknownSortColumn term.column, term.descending⟩ : SortKey)
  let outputs ←
    if q.columns.isEmpty then pure s.columns
    else q.columns.mapM (s.columnOr .unknownOutputColumn)
  return ⟨conditions, keys, outputs⟩

end Schema

end Columnar
