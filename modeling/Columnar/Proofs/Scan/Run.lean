import Mathlib.Data.List.TakeWhile
import Columnar.Proofs.Scan.Prepared
import Columnar.Scanner

/-! # The course of a scan

A scan that is rejected has done nothing, and any other scan reports the admitted rows in order. It
completes unless a cell is missing, which the ids of its text columns alone can cause.
-/

namespace Columnar

/-- The row that a call begins. -/
def SinkCall.row? : SinkCall → Option Nat
  | .beginRow row => some row
  | .value _ => none

/-- The rows that a scan reported, in the order of its report. -/
def ScanRun.rows (r : ScanRun) : List Nat := r.calls.filterMap SinkCall.row?

/-! ## Reports -/

section Report

variable {outputs : List Column} {rows : List Nat}

theorem filterMap_row?_reportCalls :
    (reportCalls outputs rows).filterMap (·.bind SinkCall.row?) = rows := by
  have hvalues (row : Nat) : (outputs.map fun c => (c.report? row).map SinkCall.value).filterMap
      (·.bind SinkCall.row?) = [] := by
    rw [List.filterMap_map, List.filterMap_eq_nil_iff]
    intro c _
    cases h : c.report? row <;> simp [h, SinkCall.row?]
  induction rows with
  | nil => rfl
  | cons row rows ih =>
    rw [reportCalls, List.flatMap_cons, List.cons_append, List.filterMap_cons,
      List.filterMap_append, hvalues, List.nil_append]
    exact congrArg (row :: ·) ih

theorem filterMap_row?_report (h : (report outputs rows).2 = true) :
    (report outputs rows).1.filterMap SinkCall.row? = rows := by
  have hall : (reportCalls outputs rows).takeWhile Option.isSome = reportCalls outputs rows :=
    List.takeWhile_eq_self_iff.mpr (List.all_eq_true.mp h)
  simp only [report, hall]
  rw [List.filterMap_filterMap]
  exact filterMap_row?_reportCalls

theorem report_complete (h : ∀ row ∈ rows, ∀ c ∈ outputs, ∃ x, c.cell? row = some x) :
    (report outputs rows).2 = true := by
  refine List.all_eq_true.mpr fun call hcall => ?_
  obtain ⟨row, hrow, hcall⟩ := List.mem_flatMap.mp hcall
  rcases List.mem_cons.mp hcall with rfl | hcall
  · rfl
  · obtain ⟨c, hc, rfl⟩ := List.mem_map.mp hcall
    obtain ⟨x, hx⟩ := h row hrow c hc
    rw [Column.report?, hx]
    rfl

end Report

/-! ## Arrangement -/

section Arrangement

variable {config : Config} {keys : List SortKey} {rows sorted : List Nat} {how : Arrangement}

theorem arrangeRows_cases (h : arrangeRows config keys rows = .ok (how, sorted)) :
    how = .none ∧ sorted = rows ∧ (keys = [] ∨ rows.length ≤ 1) ∨
      how = .elided ∧ sorted = rows ∧ RowOrder.isNatural keys = true ∨
        how = .sorted ∧ RowOrder.sort? keys rows = some sorted := by
  unfold arrangeRows at h
  split at h
  · rename_i hc
    cases h
    rw [Bool.or_eq_true, List.isEmpty_iff, decide_eq_true_eq] at hc
    exact .inl ⟨rfl, rfl, hc⟩
  · split at h
    · rename_i hc
      cases h
      exact .inr (.inl ⟨rfl, rfl, (Bool.and_eq_true_iff.mp hc).2⟩)
    · split at h
      · rename_i hs
        cases h
        exact .inr (.inr ⟨rfl, hs⟩)
      · cases h

theorem perm_of_arrangeRows (h : arrangeRows config keys rows = .ok (how, sorted)) :
    sorted.Perm rows := by
  rcases arrangeRows_cases h with ⟨_, rfl, _⟩ | ⟨_, rfl, _⟩ | ⟨_, hs⟩
  · exact .refl _
  · exact .refl _
  · exact RowOrder.perm_sort? hs

theorem exists_arrangeRows (h : ∀ k ∈ keys, ∀ row ∈ rows, ∃ x, k.column.cell? row = some x) :
    ∃ how sorted, arrangeRows config keys rows = .ok (how, sorted) := by
  unfold arrangeRows
  split
  · exact ⟨_, _, rfl⟩
  · split
    · exact ⟨_, _, rfl⟩
    · rw [RowOrder.sort?_eq_some h]
      exact ⟨_, _, rfl⟩

theorem eq_fault_of_arrangeRows {stop : Stop} (h : arrangeRows config keys rows = .error stop) :
    stop = .fault := by
  unfold arrangeRows at h
  split at h
  · cases h
  · split at h
    · cases h
    · split at h <;> cases h
      rfl

end Arrangement

/-! ## Scans -/

namespace Scanner

variable (s : Scanner) (logger : Logger) (schema : Schema) (query : Query)

/-- The rows that a scan selects, in ascending order. -/
def admitted : List Nat :=
  (schema.resolve query).admitted s.config schema.rowCount

theorem rows_select : ((schema.resolve query).select s.config schema.rowCount).rows =
    match query.violation? schema.kinds with
    | some violation => .error (.error (.contract violation))
    | none => arrangeRows s.config (schema.resolve query).keys (s.admitted schema query) := by
  have hrows : ∀ c ∈ (schema.resolve query).conditions, ∀ row < schema.rowCount,
      c.column.HasRow row :=
    fun _ hc _ => Schema.hasRow (Schema.column_mem_of_mem_conditions hc)
  rw [Prepared.rows_select hrows, Schema.findSome?_conditions]
  cases query.violation? schema.kinds <;> rfl

variable {schema query}

theorem run_of_rejection {error : ScanError} (h : query.rejection? schema.kinds = some error) :
    (s.run logger schema query).calls = [] ∧ (s.run logger schema query).counters = s.counters ∧
      (s.run logger schema query).result = .error (.error error) := by
  rw [Query.rejection?, Schema.length_kinds] at h
  cases hu : query.unknownColumn? schema.width with
  | some unknown =>
    rw [hu] at h
    cases h
    simp only [run, Schema.prepare_eq, hu, and_self]
  | none =>
    rw [hu, Option.none_or, Option.map_eq_some_iff] at h
    obtain ⟨violation, hv, rfl⟩ := h
    have hrows := s.rows_select schema query
    rw [hv] at hrows
    simp only [run, Schema.prepare_eq, hu, hrows, and_self]

theorem rows_select_of_no_rejection (h : query.rejection? schema.kinds = none) :
    ((schema.resolve query).select s.config schema.rowCount).rows =
      arrangeRows s.config (schema.resolve query).keys (s.admitted schema query) := by
  rw [rows_select, (Schema.rejection?_eq_none_iff.mp h).2]

theorem result_run (h : query.rejection? schema.kinds = none) :
    (s.run logger schema query).result =
      match arrangeRows s.config (schema.resolve query).keys (s.admitted schema query) with
      | .error _ => .error .fault
      | .ok (how, rows) =>
        if (report (schema.resolve query).outputs rows).2 then
          .ok (selectionStats ((schema.resolve query).select s.config schema.rowCount) how rows)
        else .error .fault := by
  have hu := (Schema.rejection?_eq_none_iff.mp h).1
  have hrows := s.rows_select_of_no_rejection h
  cases ha : arrangeRows s.config (schema.resolve query).keys (s.admitted schema query) with
  | error stop =>
    rw [ha] at hrows
    simp only [run, Schema.prepare_eq, hu, hrows, eq_fault_of_arrangeRows ha]
  | ok arranged =>
    rw [ha] at hrows
    simp only [run, Schema.prepare_eq, hu, hrows]

theorem calls_run (h : query.rejection? schema.kinds = none) {how : Arrangement} {rows : List Nat}
    (ha : arrangeRows s.config (schema.resolve query).keys (s.admitted schema query) =
      .ok (how, rows)) :
    (s.run logger schema query).calls = (report (schema.resolve query).outputs rows).1 := by
  have hu := (Schema.rejection?_eq_none_iff.mp h).1
  have hrows := s.rows_select_of_no_rejection h
  rw [ha] at hrows
  simp only [run, Schema.prepare_eq, hu, hrows]

variable (elapsedMicros : Nat)

theorem scan_of_rejection {error : ScanError} (h : query.rejection? schema.kinds = some error) :
    (s.scan logger schema query elapsedMicros).outcome = .rejected error ∧
      (s.scan logger schema query elapsedMicros).calls = [] ∧
      (s.scan logger schema query elapsedMicros).scanner =
        { s with counters := s.counters.addScanFailed } := by
  obtain ⟨hcalls, hcounters, hresult⟩ := s.run_of_rejection logger h
  simp only [scan, hcalls, hcounters, hresult, and_self]

/-- A scan that is not rejected reports the admitted rows in order, unless it faults. -/
theorem scan_of_no_rejection (h : query.rejection? schema.kinds = none) :
    (s.scan logger schema query elapsedMicros).outcome = .faulted ∨
      ∃ how, arrangeRows s.config (schema.resolve query).keys (s.admitted schema query) =
          .ok (how, (s.scan logger schema query elapsedMicros).rows) ∧
        (s.scan logger schema query elapsedMicros).calls = (report (schema.resolve query).outputs
          (s.scan logger schema query elapsedMicros).rows).1 ∧
        (s.scan logger schema query elapsedMicros).outcome = .completed (selectionStats
          ((schema.resolve query).select s.config schema.rowCount) how
          (s.scan logger schema query elapsedMicros).rows) := by
  have hresult := s.result_run logger h
  cases ha : arrangeRows s.config (schema.resolve query).keys (s.admitted schema query) with
  | error stop =>
    rw [ha] at hresult
    left
    simp only [scan, hresult]
  | ok arranged =>
    obtain ⟨how, rows⟩ := arranged
    rw [ha] at hresult
    have hcalls := s.calls_run logger h ha
    cases hr : (report (schema.resolve query).outputs rows).2 with
    | false =>
      left
      simp only [scan, hresult, hr, Bool.false_eq_true, if_false]
    | true =>
      right
      have hrows : (s.scan logger schema query elapsedMicros).rows = rows := by
        change (s.run logger schema query).calls.filterMap SinkCall.row? = rows
        rw [hcalls]
        exact filterMap_row?_report hr
      rw [hrows]
      refine ⟨how, rfl, hcalls, ?_⟩
      simp only [scan, hresult, hr, if_true]

theorem outcome_ne_rejected (h : query.rejection? schema.kinds = none) (error : ScanError) :
    (s.scan logger schema query elapsedMicros).outcome ≠ .rejected error := by
  rcases s.scan_of_no_rejection logger elapsedMicros h with hout | ⟨how, _, _, hout⟩
  · rw [hout]
    exact Outcome.noConfusion
  · rw [hout]
    exact Outcome.noConfusion

/--
Whether a scan is rejected, and why, is decided by its query and the kinds of the columns. A
rejected scan leaves no trace but one more failed scan.
-/
theorem scan_rejects :
    match query.rejection? schema.kinds with
    | some error =>
      (s.scan logger schema query elapsedMicros).outcome = .rejected error ∧
        (s.scan logger schema query elapsedMicros).calls = [] ∧
        (s.scan logger schema query elapsedMicros).scanner = { s with
          counters := { s.counters with scansFailed := s.counters.scansFailed + 1 } }
    | none => ∀ error, (s.scan logger schema query elapsedMicros).outcome ≠ .rejected error := by
  cases h : query.rejection? schema.kinds with
  | some error => exact s.scan_of_rejection logger elapsedMicros h
  | none => exact s.outcome_ne_rejected logger elapsedMicros h

-- An unknown column comes before a violation, wherever the query has them.
example : Query.rejection? { constraints := [.eq 0 (.text "x")], order := [⟨3, false⟩] }
    [⟨"depth", true⟩] = some (.unknownSortColumn 3 1) := by decide

variable {s logger elapsedMicros}

theorem mem_admitted {row : Nat} (h : row ∈ s.admitted schema query) : row < schema.rowCount :=
  (Prepared.mem_admitted_iff.mp h).1

theorem exists_cell_of_mem_admitted (hi : schema.Interned) {c : Column} (hc : c ∈ schema.columns)
    {row : Nat} (hrow : row ∈ s.admitted schema query) : ∃ x, c.cell? row = some x :=
  (Schema.hasRow hc (mem_admitted hrow)).exists_text (hi c hc) (mem_admitted hrow)

theorem outcome_ne_faulted_of_cells
    (hkeys : ∀ k ∈ (schema.resolve query).keys, ∀ row ∈ s.admitted schema query,
      ∃ x, k.column.cell? row = some x)
    (houtputs : ∀ c ∈ (schema.resolve query).outputs, ∀ row ∈ s.admitted schema query,
      ∃ x, c.cell? row = some x) :
    (s.scan logger schema query elapsedMicros).outcome ≠ .faulted := by
  cases hrej : query.rejection? schema.kinds with
  | some error =>
    rw [(s.scan_of_rejection logger elapsedMicros hrej).1]
    exact Outcome.noConfusion
  | none =>
    obtain ⟨how, rows, ha⟩ : ∃ how rows, arrangeRows s.config (schema.resolve query).keys
        (s.admitted schema query) = .ok (how, rows) := exists_arrangeRows hkeys
    have hreport : (report (schema.resolve query).outputs rows).2 = true :=
      report_complete fun row hrow c hc =>
        houtputs c hc row ((perm_of_arrangeRows ha).mem_iff.mp hrow)
    have hresult := s.result_run logger hrej
    rw [ha] at hresult
    simp only [scan, hresult, hreport, if_true]
    exact Outcome.noConfusion

theorem outcome_ne_faulted (hi : schema.Interned) :
    (s.scan logger schema query elapsedMicros).outcome ≠ .faulted :=
  outcome_ne_faulted_of_cells
    (fun _ hk _ => exists_cell_of_mem_admitted hi (Schema.column_mem_of_mem_keys hk))
    fun _ hc _ => exists_cell_of_mem_admitted hi (Schema.mem_of_mem_outputs hc)

theorem rejection?_of_completed {stats : Stats}
    (h : (s.scan logger schema query elapsedMicros).outcome = .completed stats) :
    query.rejection? schema.kinds = none := by
  cases hr : query.rejection? schema.kinds with
  | none => rfl
  | some error =>
    rw [(s.scan_of_rejection logger elapsedMicros hr).1] at h
    cases h

theorem rejection?_of_rejected {error : ScanError}
    (h : (s.scan logger schema query elapsedMicros).outcome = .rejected error) :
    query.rejection? schema.kinds = some error := by
  cases hr : query.rejection? schema.kinds with
  | none => exact absurd h (s.outcome_ne_rejected logger elapsedMicros hr error)
  | some found =>
    rw [(s.scan_of_rejection logger elapsedMicros hr).1] at h
    rw [Outcome.rejected.inj h]

theorem scan_of_completed {stats : Stats}
    (h : (s.scan logger schema query elapsedMicros).outcome = .completed stats) :
    ∃ how, arrangeRows s.config (schema.resolve query).keys (s.admitted schema query) =
      .ok (how, (s.scan logger schema query elapsedMicros).rows) := by
  rcases s.scan_of_no_rejection logger elapsedMicros (rejection?_of_completed h) with
    hf | ⟨how, ha, _⟩
  · rw [hf] at h
    cases h
  · exact ⟨how, ha⟩

variable (s) in
theorem mem_admitted_iff (h : query.rejection? schema.kinds = none) (hs : schema.Ascending)
    (hn : schema.OrderedAll (!·.isNaN)) {row : Nat} :
    row ∈ s.admitted schema query ↔ row < schema.rowCount ∧ ∀ c ∈ query.constraints,
      schema.HoldsAt c row ∨ s.config.boundPruning = true ∧ schema.OverreachedAt c row := by
  rw [Schema.rejection?_eq_none_iff, ← Schema.findSome?_conditions,
    List.findSome?_eq_none_iff] at h
  rw [admitted, Prepared.mem_admitted_iff]
  refine and_congr_right fun hrow => ?_
  have hiff : ∀ c ∈ (schema.resolve query).conditions, (c.admits s.config row = true ↔
      c.Holds row ∨ s.config.boundPruning = true ∧ c.Overreaches row) := by
    intro c hc
    have hmem := Schema.column_mem_of_mem_conditions hc
    exact Condition.admits_iff (h.2 c hc) (hs _ hmem) (hn _ hmem) (Schema.hasRow hmem hrow)
  rw [forall₂_congr hiff, Schema.forall_conditions_iff]
  refine forall₂_congr fun c _ => ?_
  rw [Schema.HoldsAt, Schema.OverreachedAt]
  cases schema.columns[c.column]? with
  | none => simp
  | some column => simp [Condition.Holds]

end Scanner

end Columnar
