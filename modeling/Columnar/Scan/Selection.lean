import Columnar.Scan.Plan

/-! # Selected rows

After planning, a scan filters the candidate rows by one residual constraint after another and
brings the rest into the order asked for. Either step may come upon a row past the end of the data,
which faults the scan.
-/

namespace Columnar

inductive Stop where
  | error (error : ScanError)
  /-- A row lies past the end of the data of a column. -/
  | fault
  deriving DecidableEq

structure Filtering where
  /-- The constraints applied, each with the number of rows it left. -/
  applied : List (Condition × Nat)
  result : Except Stop Candidates

/-- Filters by one constraint after another until one fails. -/
def Filtering.ofConditions : List Condition → Candidates → Filtering
  | [], rows => ⟨[], .ok rows⟩
  | c :: conditions, rows =>
    match c.column.filter c.op c.value rows with
    | (kept, .complete) =>
      let rest := ofConditions conditions kept
      ⟨(c, kept.count) :: rest.applied, rest.result⟩
    | (_, .refused violation) => ⟨[], .error (.error (.contract violation))⟩
    | (_, .outOfData) => ⟨[], .error .fault⟩

inductive Arrangement where
  /-- No order was asked for, or there are too few rows to have one. -/
  | none
  | elided
  | sorted
  deriving DecidableEq

/-- Whether ascending rows are known to satisfy the keys. -/
def RowOrder.isNatural : List SortKey → Bool
  | [key] => !key.descending && key.column.naturallyOrdered
  | _ => false

/-- Brings ascending rows into the order of the keys. -/
def arrangeRows (config : Config) (keys : List SortKey) (rows : List Nat) :
    Except Stop (Arrangement × List Nat) :=
  if keys.isEmpty || decide (rows.length ≤ 1) then .ok (.none, rows)
  else if config.naturalOrderSortElision && RowOrder.isNatural keys then .ok (.elided, rows)
  else
    match RowOrder.sort? keys rows with
    | some sorted => .ok (.sorted, sorted)
    | none => .error .fault

/-- The rows that a query selects, and how they were found. -/
structure Selection where
  plan : Plan
  /-- The constraints that were filtered by, each with the number of rows it left. -/
  applied : List (Condition × Nat)
  rows : Except Stop (Arrangement × List Nat)

def Prepared.select (p : Prepared) (config : Config) (rowCount : Nat) : Selection :=
  let plan := Plan.ofConditions config rowCount p.conditions
  let filtering := Filtering.ofConditions plan.residual plan.candidates
  { plan
    applied := filtering.applied
    rows := filtering.result.bind fun candidates => arrangeRows config p.keys candidates.toList }

end Columnar
