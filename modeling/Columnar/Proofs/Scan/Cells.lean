import Columnar.Proofs.Scan.Completed

/-! # Collected cells

A collector loses no value and no row of the calls that it receives, whatever calls these are. What
it gathers from a completed scan is a table: each row once, and in each row one value for every
output column, which is what the column reports for that row.
-/

namespace Columnar

/-! ## Collectors -/

/-- The values that are reported before any row is begun. -/
def SinkCall.leading (calls : List SinkCall) : List Value :=
  (calls.takeWhile (·.row?.isNone)).filterMap SinkCall.value?

namespace Collector

variable {c : Collector}

/-- The values of all collected rows, one row after another. -/
def values (c : Collector) : List Value := c.rows.flatMap ResultRow.values

theorem values_receive (c : Collector) (call : SinkCall) :
    (c.receive call).values = c.values ++ call.value?.toList := by
  cases call with
  | beginRow row => simp [values, receive, SinkCall.value?]
  | value v =>
    rcases List.eq_nil_or_concat c.rows with h | ⟨rows, last, h⟩
    · simp [values, receive, SinkCall.value?, h, addValue]
    · simp [values, receive, SinkCall.value?, h, addValue_concat]

theorem values_foldl_receive (c : Collector) (calls : List SinkCall) :
    (calls.foldl receive c).values = c.values ++ calls.filterMap SinkCall.value? := by
  induction calls generalizing c with
  | nil => exact (List.append_nil _).symm
  | cons call calls ih =>
    rw [List.foldl_cons, ih, values_receive, List.append_assoc]
    cases call <;> rfl

theorem rows_receive_ne_nil (c : Collector) (call : SinkCall) : (c.receive call).rows ≠ [] := by
  cases call with
  | beginRow row => simp [receive]
  | value v =>
    rcases List.eq_nil_or_concat c.rows with h | ⟨rows, last, h⟩
    · simp [receive, h, addValue]
    · simp [receive, h, addValue_concat]

theorem rowIndices_receive (h : c.rows ≠ []) (call : SinkCall) :
    (c.receive call).rowIndices = c.rowIndices ++ call.row?.toList := by
  cases call with
  | beginRow row => simp [rowIndices, receive, SinkCall.row?]
  | value v =>
    obtain ⟨rows, last, hrows⟩ := (List.eq_nil_or_concat c.rows).resolve_left h
    simp [rowIndices, receive, SinkCall.row?, hrows, addValue_concat]

theorem rowIndices_foldl_receive (h : c.rows ≠ []) (calls : List SinkCall) :
    (calls.foldl receive c).rowIndices = c.rowIndices ++ calls.filterMap SinkCall.row? := by
  induction calls generalizing c with
  | nil => exact (List.append_nil _).symm
  | cons call calls ih =>
    rw [List.foldl_cons, ih (rows_receive_ne_nil c call), rowIndices_receive h, List.append_assoc]
    cases call <;> rfl

/-- A value before all rows opens row 0, and every other row is one that was begun. -/
theorem rowIndices_ofCalls (calls : List SinkCall) : (ofCalls calls).rowIndices =
    (if SinkCall.leading calls = [] then [] else [0]) ++ calls.filterMap SinkCall.row? := by
  cases calls with
  | nil => rfl
  | cons call calls =>
    rw [ofCalls, List.foldl_cons, rowIndices_foldl_receive (rows_receive_ne_nil _ call)]
    cases call <;> rfl

example : (ofCalls [.value .null, .beginRow 4, .value .null]).rowIndices = [0, 4] := by decide

end Collector

/-! ## Output columns -/

theorem map_some_filterMap {α β : Type} {f : α → Option β} {xs : List α}
    (h : ∀ x ∈ xs, ∃ y, f x = some y) : (xs.filterMap f).map some = xs.map f := by
  induction xs with
  | nil => rfl
  | cons x xs ih =>
    obtain ⟨y, hy⟩ := h x List.mem_cons_self
    rw [List.filterMap_cons_some hy, List.map_cons, List.map_cons, hy,
      ih fun x hx => h x (List.mem_cons_of_mem _ hx)]

/-- The positions of the columns that a query reports; none named means all of them. -/
def Query.outputPositions (q : Query) (width : Nat) : List Nat :=
  if q.columns.isEmpty then List.range width else q.columns

namespace Schema

variable {s : Schema} {q : Query}

/-- What the column at a position reports for a row. -/
def report? (s : Schema) (position row : Nat) : Option Value :=
  s.columns[position]?.bind (·.report? row)

theorem map_some_outputs (h : q.unknownColumn? s.width = none) :
    (s.resolve q).outputs.map some = (q.outputPositions s.width).map (s.columns[·]?) := by
  rw [resolve, Query.outputPositions]
  dsimp only
  split
  · apply List.ext_getElem
    · simp [width]
    · intro position hcolumn hposition
      simp
  · apply map_some_filterMap
    intro position hposition
    simp only [Query.unknownColumn?, Option.or_eq_none_iff, Option.map_eq_none_iff,
      List.find?_eq_none, decide_eq_true_eq, Nat.not_le] at h
    obtain ⟨column, -, hcolumn⟩ := columns_of_lt (h.2.2 position hposition)
    exact ⟨column, hcolumn⟩

end Schema

theorem exists_report?_of_complete {outputs : List Column} {rows : List Nat}
    (h : (report outputs rows).2 = true) {row : Nat} (hrow : row ∈ rows) {c : Column}
    (hc : c ∈ outputs) : ∃ v, c.report? row = some v := by
  have hcall : (c.report? row).map SinkCall.value ∈ reportCalls outputs rows :=
    List.mem_flatMap.mpr ⟨row, hrow, List.mem_cons_of_mem _ (List.mem_map_of_mem hc)⟩
  have hsome := List.all_eq_true.mp h _ hcall
  rw [Option.isSome_map] at hsome
  exact Option.isSome_iff_exists.mp hsome

namespace Scanner

variable {s : Scanner} {logger : Logger} {schema : Schema} {query : Query} {elapsedMicros : Nat}
  {stats : Stats}

theorem complete_of_completed
    (h : (s.scan logger schema query elapsedMicros).outcome = .completed stats) :
    (report (schema.resolve query).outputs (s.scan logger schema query elapsedMicros).rows).2 =
      true := by
  obtain ⟨how, ha⟩ := scan_of_completed h
  have hrun := result_run_of_completed h
  rw [s.result_run logger (rejection?_of_completed h), ha] at hrun
  dsimp only at hrun
  split at hrun
  · assumption
  · cases hrun

theorem results_of_completed
    (h : (s.scan logger schema query elapsedMicros).outcome = .completed stats) :
    (s.scan logger schema query elapsedMicros).results =
        (s.scan logger schema query elapsedMicros).rows.map
          (ResultRow.ofColumns (schema.resolve query).outputs) ∧
      stats.rowsReturned = (s.scan logger schema query elapsedMicros).rows.length := by
  obtain ⟨how, ha⟩ := scan_of_completed h
  obtain ⟨how', rows, ha', hresults, rfl⟩ := completed_cases h
  obtain ⟨-, rfl⟩ := Prod.mk.inj (Except.ok.inj (ha'.symm.trans ha))
  exact ⟨hresults, rfl⟩

theorem values_of_mem_results
    (h : (s.scan logger schema query elapsedMicros).outcome = .completed stats) {result : ResultRow}
    (hresult : result ∈ (s.scan logger schema query elapsedMicros).results) :
    result.values.map some =
      (query.outputPositions schema.width).map (schema.report? · result.row) := by
  rw [(results_of_completed h).1] at hresult
  obtain ⟨row, hrow, rfl⟩ := List.mem_map.mp hresult
  have hknown := (Schema.rejection?_eq_none_iff.mp (rejection?_of_completed h)).1
  have houtputs := congrArg (List.map fun c : Option Column => c.bind (·.report? row))
    (Schema.map_some_outputs hknown)
  rw [List.map_map, List.map_map] at houtputs
  refine Eq.trans (map_some_filterMap fun c hc => ?_) houtputs
  exact exists_report?_of_complete (complete_of_completed h) hrow hc

/--
What is collected from a completed scan has each reported row once and as many rows as are counted,
and in each row the values of the output columns for that row, in their order. Whatever a collector
receives, its rows hold all values in the order of their report, and its rows are those that were
begun, after a row 0 for values that came before them.
-/
theorem cells_ofCalls :
    (∀ stats, (s.scan logger schema query elapsedMicros).outcome = .completed stats →
      (Collector.ofCalls (s.scan logger schema query elapsedMicros).calls).rowIndices.Nodup ∧
        (Collector.ofCalls (s.scan logger schema query elapsedMicros).calls).length =
          stats.rowsReturned ∧
        ∀ result ∈ (Collector.ofCalls (s.scan logger schema query elapsedMicros).calls).rows,
          result.values.map some =
            (query.outputPositions schema.width).map (schema.report? · result.row)) ∧
      ∀ calls, (Collector.ofCalls calls).values = calls.filterMap SinkCall.value? ∧
        (Collector.ofCalls calls).rowIndices =
          (if SinkCall.leading calls = [] then [] else [0]) ++ calls.filterMap SinkCall.row? := by
  constructor
  · intro stats h
    obtain ⟨hresults, hstats⟩ := results_of_completed h
    obtain ⟨how, ha⟩ := scan_of_completed h
    refine ⟨?_, ?_, fun result => values_of_mem_results h⟩
    · change ((s.scan logger schema query elapsedMicros).results.map ResultRow.row).Nodup
      rw [hresults, List.map_map]
      change (List.map id _).Nodup
      rw [List.map_id, (perm_of_arrangeRows ha).nodup_iff]
      exact Prepared.pairwise_admitted.imp Nat.ne_of_lt
    · change (s.scan logger schema query elapsedMicros).results.length = _
      rw [hresults, hstats, List.length_map]
  · exact fun calls => ⟨Collector.values_foldl_receive {} calls, Collector.rowIndices_ofCalls calls⟩

/-- Files with a label that may be empty, and a hidden column of sizes. -/
def files : Schema where
  columns := [.text "label" #[1, 0, 1] #["", "a"] false, .rowId "id" 2,
    .numeric "size" (.integer .uint64) #[⟨6, by decide⟩, ⟨9, by decide⟩, ⟨3, by decide⟩] true false]

/-- The hidden sizes are reported twice on each row, and one of the rows has no label. -/
theorem cells_ofCalls_files :
    let run := ({} : Scanner).scan {} files
      { constraints := [.gt 2 (.integer 3)], order := [⟨2, true⟩], columns := [2, 0, 2] } 0
    (Collector.ofCalls run.calls).rowIndices = [1, 0] ∧
      ∀ result ∈ (Collector.ofCalls run.calls).rows,
        result.values.map some = [2, 0, 2].map (files.report? · result.row) := by
  intro run
  have h : run.outcome = .completed ⟨3, 2, 0, 1, true⟩ := by
    simp only [run, scan, Scanner.run, Prepared.select, arrangeRows,
      RowOrder.sort?_eq_insertionSort]
    decide +kernel
  refine ⟨?_, (cells_ofCalls.1 _ h).2.2⟩
  simp only [run, scan, Scanner.run, Prepared.select, arrangeRows, RowOrder.sort?_eq_insertionSort]
  decide +kernel

end Scanner

end Columnar
