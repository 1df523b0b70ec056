import Columnar.Counters
import Columnar.Log.Event
import Columnar.Log.Scope
import Columnar.Scan.Output
import Columnar.Scan.Selection

/-! # Table scans

A scanner runs queries on tables. A scan looks up the columns, plans, filters, sorts and reports, in
this order, so that a rejected scan has reported nothing. What it does to its surroundings is part
of its result: the calls its sink saw, the entries it logged and its counters afterwards.
-/

namespace Columnar

/-- A scanner with its options and its counters over all scans so far. -/
structure Scanner where
  config : Config := {}
  counters : Counters := {}
  deriving DecidableEq

inductive Outcome where
  | completed (stats : Stats)
  | rejected (error : ScanError)
  /-- A row lay past the end of the data of a column. -/
  | faulted
  deriving DecidableEq

/-- What a scan did. -/
structure ScanRun where
  outcome : Outcome
  calls : List SinkCall
  entries : List LogEntry
  scanner : Scanner

namespace Scanner

/-- What a scan has done between its begin and its end. -/
structure Progress where
  calls : List SinkCall := []
  entries : List LogEntry := []
  counters : Counters
  result : Except Stop Stats

def planEntry (plan : Plan) : LogEntry :=
  Event.boundsComputed.entry
    [("min_idx", Nat.repr plan.range.lo), ("max_idx", Nat.repr plan.range.hi),
     ("consumed", Nat.repr plan.consumed)]

/-- The log entry of a filter that left `remaining` rows. -/
def filterEntry (c : Condition) (remaining : Nat) : LogEntry :=
  Event.filterApplied.entry
    [("column", c.column.name), ("op", c.op.symbol), ("remaining", Nat.repr remaining)]

def arrangementEntries (arrangement : Arrangement) (rows : Nat) : List LogEntry :=
  match arrangement with
  | .none => []
  | .elided => [Event.sortSkipped.entry []]
  | .sorted => [Event.sortApplied.entry [("rows", Nat.repr rows)]]

/-- The log entries of a selection, one for each step that was completed. -/
def selectionEntries (selection : Selection) : List LogEntry :=
  planEntry selection.plan ::
    selection.applied.map (fun (c, remaining) => filterEntry c remaining) ++
    match selection.rows with
    | .ok (arrangement, rows) => arrangementEntries arrangement rows.length
    | .error _ => []

def countArrangement (counters : Counters) : Arrangement → Counters
  | .none => counters
  | .elided => counters.addSortSkipped
  | .sorted => counters.addSortPerformed

/-- What is counted of a selection whose rows were reported. -/
def selectionStats (selection : Selection) (arrangement : Arrangement) (rows : List Nat) :
    Stats where
  rowsConsidered := selection.plan.range.length
  rowsReturned := rows.length
  constraintsConsumed := selection.plan.consumed
  filtersApplied := selection.applied.length
  sorted := arrangement == .sorted

/-- Runs a query up to its report, without the begin and the end in the log. -/
def run (s : Scanner) (logger : Logger) (schema : Schema) (query : Query) : Progress :=
  match schema.prepare query with
  | .error error => { counters := s.counters, result := .error (.error error) }
  | .ok prepared =>
    let selection := prepared.select s.config schema.rowCount
    let entries := (selectionEntries selection).flatMap logger.log
    match selection.rows with
    | .error stop => { entries, counters := s.counters, result := .error stop }
    | .ok (arrangement, rows) =>
      let (calls, complete) := report prepared.outputs rows
      { calls
        entries
        counters := countArrangement s.counters arrangement
        result :=
          if complete then .ok (selectionStats selection arrangement rows) else .error .fault }

/-- The log entries of a rejected scan. A broken contract is told by an event of its own. -/
def rejectionEntries (scope : Scope) (error : ScanError) : List LogEntry :=
  let violations :=
    match error with
    | .contract violation =>
      if violation.isFatal then
        [Event.contractViolation.entry
          [("column", violation.column), ("message", violation.message)]]
      else []
    | _ => []
  violations ++ [(scope.fail error.toText false).2]

def completionEntry (scope : Scope) (stats : Stats) (elapsedMicros : Nat) : LogEntry :=
  (scope.complete
    [("rows_considered", Nat.repr stats.rowsConsidered),
     ("rows_returned", Nat.repr stats.rowsReturned)] elapsedMicros).2

def scope (query : Query) : Scope where
  name := "SCAN"
  fields :=
    [("constraints", Nat.repr query.constraints.length), ("order_by", Nat.repr query.order.length)]

/--
Scans a table. A completed scan adds to the counters what it did, and a rejected one only counts as
failed. A fault ends the scan where it occurs, with the calls made and the sort counted until then.
-/
def scan (s : Scanner) (logger : Logger) (schema : Schema) (query : Query) (elapsedMicros : Nat) :
    ScanRun :=
  let scope := scope query
  let progress := s.run logger schema query
  let (outcome, closing, counters) :=
    match progress.result with
    | .ok stats =>
      (Outcome.completed stats, [completionEntry scope stats elapsedMicros],
        progress.counters.record stats)
    | .error (.error error) =>
      (Outcome.rejected error, rejectionEntries scope error, progress.counters.addScanFailed)
    | .error .fault => (Outcome.faulted, scope.close, progress.counters)
  { outcome
    calls := progress.calls
    entries := logger.log scope.begun ++ progress.entries ++ closing.flatMap logger.log
    scanner := { s with counters } }

/-- Runs queries one after another, each on its table. -/
def scanAll (s : Scanner) (logger : Logger) (elapsedMicros : Nat) :
    List (Schema × Query) → List ScanRun
  | [] => []
  | (schema, query) :: queries =>
    let run := s.scan logger schema query elapsedMicros
    run :: run.scanner.scanAll logger elapsedMicros queries

end Scanner

end Columnar
