import Columnar.Log.Entry

/-! # Scan events

The events that a scan logs between its begin and its end.
-/

namespace Columnar

inductive Event where
  /-- The bounds of all constraints were intersected. -/
  | boundsComputed
  | filterApplied
  /-- The natural row order already was the order asked for. -/
  | sortSkipped
  | sortApplied
  /-- A column was handed a literal outside its contract. -/
  | contractViolation
  deriving DecidableEq

namespace Event

def name : Event → String
  | .boundsComputed => "BOUNDS_COMPUTED"
  | .filterApplied => "FILTER_APPLIED"
  | .sortSkipped => "SORT_SKIPPED"
  | .sortApplied => "SORT_APPLIED"
  | .contractViolation => "CONTRACT_VIOLATION"

/-- Whether the event shows a broken invariant. -/
def isFatal (e : Event) : Bool := e == .contractViolation

/-- The log entry of an event; every event that is not fatal is detail. -/
def entry (e : Event) (fields : Fields) : LogEntry :=
  .ofSeverity (if e.isFatal then .fatal else .trace) e.name fields

end Event

end Columnar
