import Columnar.Column.Basic
import Columnar.Report

/-! # Output of a scan

The selected rows are reported one after another, each with the values of the output columns. A row
past the end of a column's data cuts the report short.
-/

namespace Columnar

/-- The calls that report rows; a call without a value stands past the end of the data. -/
def reportCalls (outputs : List Column) (rows : List Nat) : List (Option SinkCall) :=
  rows.flatMap fun row =>
    some (.beginRow row) :: outputs.map fun c => (c.report? row).map SinkCall.value

/-- The calls a sink sees until the first one without a value, and whether there was none. -/
def report (outputs : List Column) (rows : List Nat) : List SinkCall × Bool :=
  let calls := reportCalls outputs rows
  ((calls.takeWhile Option.isSome).filterMap id, calls.all Option.isSome)

end Columnar
