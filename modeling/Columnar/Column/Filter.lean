import Columnar.Candidates
import Columnar.Column.Basic
import Columnar.Log.Severity

/-! # Filtering by a column

A constraint on a number column keeps the candidate rows whose cells meet it. Text and null literals
break the contract of such a column, whatever rows there are. Constraints on text columns are left
to the SQL engine, so they exclude nothing.
-/

namespace Columnar

/-- A number column was asked to compare its cells with a text or a null. -/
structure ContractViolation where
  column : String
  kind : ValueKind
  deriving DecidableEq

namespace ContractViolation

def code : String := "COLUMN_INVALID_CONTRACT"

/-- A violation means that the SQL engine sent a constraint to a column that cannot serve it. -/
def severity : Severity := .fatal

def isFatal (_ : ContractViolation) : Bool := severity == .fatal

def message (e : ContractViolation) : String :=
  "Column '" ++ e.column ++ "' cannot compare against a " ++ e.kind.name ++ " value"

def toText (e : ContractViolation) : String :=
  "[" ++ severity.name ++ "] " ++ code ++ ": " ++ e.message

end ContractViolation

/-- How filtering by one constraint ended. -/
inductive FilterEnd where
  | complete
  /-- The literal is not a number, so no candidate was tested. -/
  | refused (violation : ContractViolation)
  /-- A candidate lies past the end of the data. -/
  | outOfData
  deriving DecidableEq

namespace Column

/-- Whether the cell at a row meets a constraint; undefined past the end of the data. -/
def satisfies? (c : Column) (op : Operator) (literal : Value) (row : Nat) : Option Bool :=
  (c.cell? row).map (·.satisfies op literal)

def filter (c : Column) (op : Operator) (literal : Value) (rows : Candidates) :
    Candidates × FilterEnd :=
  if !c.isNumeric then (rows, .complete)
  else if !literal.isNumeric then (rows, .refused ⟨c.name, literal.kind⟩)
  else
    match rows.filterDefined (c.satisfies? op literal) with
    | (kept, true) => (kept, .complete)
    | (kept, false) => (kept, .outOfData)

end Column

end Columnar
