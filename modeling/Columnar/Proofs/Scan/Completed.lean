import Columnar.Proofs.Report
import Columnar.Proofs.Scan.Run

/-! # Completed scans

What a completed scan reported and counted is given by its plan and by the rows that it selected.
-/

namespace Columnar

/-- The rows that a scan reported with their values, as a collector gathers them. -/
def ScanRun.results (r : ScanRun) : List ResultRow := (Collector.ofCalls r.calls).rows

theorem Filtering.length_applied {conditions : List Condition} {rows kept : Candidates}
    (h : (ofConditions conditions rows).result = .ok kept) :
    (ofConditions conditions rows).applied.length = conditions.length := by
  induction conditions generalizing rows with
  | nil => rfl
  | cons c conditions ih =>
    unfold ofConditions at h ⊢
    split at h
    · exact congrArg (· + 1) (ih h)
    · cases h
    · cases h

namespace Scanner

variable {s : Scanner} {logger : Logger} {schema : Schema} {query : Query} {elapsedMicros : Nat}
  {stats : Stats}

/-- The plan of a scan that is not rejected. -/
def plan (s : Scanner) (schema : Schema) (query : Query) : Plan :=
  Plan.ofConditions s.config schema.rowCount (schema.resolve query).conditions

theorem hasRow_of_mem_plan {c : Condition} (hc : c ∈ (s.plan schema query).residual) {row : Nat}
    (hrow : row ∈ (s.plan schema query).candidates.toList) : c.column.HasRow row := by
  refine Plan.hasRow_of_mem_candidates ?_ hc hrow
  intro c hc row hrow
  exact Schema.hasRow (Schema.column_mem_of_mem_conditions hc) hrow

theorem result_run_of_completed
    (h : (s.scan logger schema query elapsedMicros).outcome = .completed stats) :
    (s.run logger schema query).result = .ok stats := by
  cases hr : (s.run logger schema query).result with
  | ok stats' =>
    simp only [scan, hr, Outcome.completed.injEq] at h
    rw [h]
  | error stop => cases stop <;> simp only [scan, hr, reduceCtorEq] at h

theorem length_applied_select {arranged : Arrangement × List Nat}
    (h : ((schema.resolve query).select s.config schema.rowCount).rows = .ok arranged) :
    ((schema.resolve query).select s.config schema.rowCount).applied.length =
      (s.plan schema query).residual.length := by
  simp only [Prepared.select] at h
  cases hf : (Filtering.ofConditions (Plan.ofConditions s.config schema.rowCount
      (schema.resolve query).conditions).residual (Plan.ofConditions s.config schema.rowCount
      (schema.resolve query).conditions).candidates).result with
  | ok kept => exact Filtering.length_applied hf
  | error stop =>
    rw [hf] at h
    cases h

theorem selectionStats_eq (h : query.rejection? schema.kinds = none) {how : Arrangement}
    {rows : List Nat} (ha : arrangeRows s.config (schema.resolve query).keys
      (s.admitted schema query) = .ok (how, rows)) :
    selectionStats ((schema.resolve query).select s.config schema.rowCount) how rows = {
      rowsConsidered := (s.plan schema query).range.length
      rowsReturned := rows.length
      constraintsConsumed := (s.plan schema query).consumed
      filtersApplied := (s.plan schema query).residual.length
      sorted := how == .sorted } := by
  rw [selectionStats, length_applied_select ((s.rows_select_of_no_rejection h).trans ha)]
  rfl

/-- A completed scan reports the rows that it arranged, and its statistics follow from its plan. -/
theorem completed_cases
    (h : (s.scan logger schema query elapsedMicros).outcome = .completed stats) :
    ∃ how rows, arrangeRows s.config (schema.resolve query).keys (s.admitted schema query) =
        .ok (how, rows) ∧
      (s.scan logger schema query elapsedMicros).results =
        rows.map (ResultRow.ofColumns (schema.resolve query).outputs) ∧
      stats = {
        rowsConsidered := (s.plan schema query).range.length
        rowsReturned := rows.length
        constraintsConsumed := (s.plan schema query).consumed
        filtersApplied := (s.plan schema query).residual.length
        sorted := how == .sorted } := by
  have hrej := rejection?_of_completed h
  have hrun := result_run_of_completed h
  rw [s.result_run logger hrej] at hrun
  split at hrun
  · cases hrun
  · rename_i how rows ha
    split at hrun
    · rename_i hreport
      refine ⟨how, rows, ha, ?_, (Except.ok.inj hrun).symm.trans (selectionStats_eq hrej ha)⟩
      change (Collector.ofCalls (s.run logger schema query).calls).rows = _
      rw [s.calls_run logger hrej ha, calls_report hreport, ← List.flatMap_map]
      exact Collector.rows_ofCalls _
    · cases hrun

end Scanner

end Columnar
