import Columnar.Proofs.Log.Threshold
import Columnar.Proofs.Words.Scan

/-! # Transcripts of scans

The log of a scan tells exactly what the scan did, in the order in which it did it: the plan, each
filter with the rows that it left, the order of the rows, and how the scan ended. The entries are
written out here, apart from the scopes and events by which they are logged.
-/

namespace Columnar

/-! ## Filters -/

/-- Constraints, each with the number of the rows that pass it and all constraints before it. -/
def Condition.narrowing : List Condition → List Nat → List (Condition × Nat)
  | [], _ => []
  | c :: conditions, rows =>
    (c, (rows.filter c.passes).length) :: narrowing conditions (rows.filter c.passes)

namespace Condition

variable (conditions : List Condition) (rows : List Nat)

theorem map_fst_narrowing : (narrowing conditions rows).map Prod.fst = conditions := by
  induction conditions generalizing rows with
  | nil => rfl
  | cons c conditions ih => exact congrArg (c :: ·) (ih _)

theorem pairwise_narrowing :
    (rows.length :: (narrowing conditions rows).map Prod.snd).Pairwise (· ≥ ·) := by
  induction conditions generalizing rows with
  | nil => exact List.pairwise_singleton _ _
  | cons c conditions ih =>
    have hkept : (rows.filter c.passes).length ≤ rows.length := List.length_filter_le _ _
    have ih := ih (rows.filter c.passes)
    refine .cons ?_ ih
    intro count hcount
    rcases List.mem_cons.mp hcount with rfl | hcount
    · exact hkept
    · exact ((List.pairwise_cons.mp ih).1 count hcount).trans hkept

theorem getLast?_narrowing :
    (rows.length :: (narrowing conditions rows).map Prod.snd).getLast? =
      some (rows.filter fun row => conditions.all (·.passes row)).length := by
  induction conditions generalizing rows with
  | nil => simp [narrowing]
  | cons c conditions ih =>
    have ih := ih (rows.filter c.passes)
    simp only [List.filter_filter, Bool.and_comm] at ih
    simpa only [narrowing, List.map_cons, List.getLast?_cons_cons, List.all_cons] using ih

end Condition

/-- The filters applied are those before the first violation, with the rows that each left. -/
theorem Filtering.applied_ofConditions {conditions : List Condition} {rows : Candidates}
    (hrows : ∀ c ∈ conditions, ∀ row ∈ rows.toList, c.column.HasRow row) :
    (ofConditions conditions rows).applied =
      Condition.narrowing (conditions.takeWhile (·.violation?.isNone)) rows.toList := by
  induction conditions generalizing rows with
  | nil => rfl
  | cons c conditions ih =>
    cases hv : c.violation? with
    | some violation =>
      rw [ofConditions_of_violation conditions hv, List.takeWhile_cons_of_neg (by simp [hv])]
      rfl
    | none =>
      obtain ⟨kept, hkept, hcons⟩ :=
        ofConditions_of_no_violation conditions hv (hrows c List.mem_cons_self)
      have hrest (d : Condition) (hd : d ∈ conditions) (row : Nat) (hrow : row ∈ kept.toList) :
          d.column.HasRow row :=
        hrows d (List.mem_cons_of_mem _ hd) row (List.mem_of_mem_filter (hkept ▸ hrow))
      rw [hcons, ih hrest, List.takeWhile_cons_of_pos (by simp [hv])]
      rw [Condition.narrowing, ← hkept, kept.count_eq_length]

/-- The constraints that bounds leave to filters, in the order of the query. -/
def Scanner.residual (s : Scanner) (schema : Schema) (query : Query) : List Condition :=
  (schema.resolve query).conditions.filter fun c => !(s.config.boundPruning && c.bounds.consumed)

theorem Scanner.residual_plan (s : Scanner) (schema : Schema) (query : Query) :
    (s.plan schema query).residual = s.residual schema query := by
  unfold residual plan Plan.ofConditions
  cases s.config.boundPruning <;> simp

/-! ## Entries -/

namespace Transcript

section Entries

variable (query : Query)

/-- The fields that the begin and the end of a scan share. -/
def header : Fields :=
  [("constraints", Nat.repr query.constraints.length), ("order_by", Nat.repr query.order.length)]

def begunEntry : LogEntry := ⟨.trace, .output, "SCAN_BEGIN", header query⟩

def failedEntry (error : ScanError) : LogEntry :=
  ⟨.error, .error, "SCAN_FAILED", header query ++ [("reason", error.toText)]⟩

def completedEntry (stats : Stats) (elapsedMicros : Nat) : LogEntry :=
  ⟨.info, .output, "SCAN_COMPLETE", header query ++
    [("rows_considered", Nat.repr stats.rowsConsidered),
      ("rows_returned", Nat.repr stats.rowsReturned), ("elapsed_us", Nat.repr elapsedMicros)]⟩

end Entries

def plannedEntry (plan : Plan) : LogEntry :=
  ⟨.trace, .output, "BOUNDS_COMPUTED",
    [("min_idx", Nat.repr plan.range.lo), ("max_idx", Nat.repr plan.range.hi),
      ("consumed", Nat.repr plan.consumed)]⟩

def filteredEntry (c : Condition) (remaining : Nat) : LogEntry :=
  ⟨.trace, .output, "FILTER_APPLIED",
    [("column", c.column.name), ("op", c.op.symbol), ("remaining", Nat.repr remaining)]⟩

def violatedEntry (violation : ContractViolation) : LogEntry :=
  ⟨.fatal, .error, "CONTRACT_VIOLATION",
    [("column", violation.column), ("message", violation.message)]⟩

def sortedEntry (rows : Nat) : LogEntry :=
  ⟨.trace, .output, "SORT_APPLIED", [("rows", Nat.repr rows)]⟩

def elidedEntry : LogEntry := ⟨.trace, .output, "SORT_SKIPPED", []⟩

/-- The entries of a plan and of the filters after it. -/
def narrowedEntries (plan : Plan) (filters : List (Condition × Nat)) : List LogEntry :=
  plannedEntry plan :: filters.map fun (c, remaining) => filteredEntry c remaining

/-! ## The order of the entries -/

/-- Filters that were served, with the rows that each left of a range. -/
structure Served (range : Bounds) (filters : List (Condition × Nat)) : Prop where
  lo_le_hi : range.lo ≤ range.hi
  no_violation : ∀ f ∈ filters, f.1.violation? = none
  /-- Each number is that of the rows of the range that pass the filters so far. -/
  remaining : filters = Condition.narrowing (filters.map Prod.fst)
    (List.range' range.lo (range.hi - range.lo))
  /-- The rows never increase, and there are never more of them than the range holds. -/
  nonincreasing : ((range.hi - range.lo) :: filters.map Prod.snd).Pairwise (· ≥ ·)

/-- What is logged of the order of the rows that a scan returns. -/
inductive OfOrder (query : Query) (stats : Stats) : List LogEntry → Prop
  | sorted (h : stats.sorted = true) : OfOrder query stats [sortedEntry stats.rowsReturned]
  | elided (h : stats.sorted = false) {column : Nat} (horder : query.order = [⟨column, false⟩]) :
      OfOrder query stats [elidedEntry]
  | none (h : stats.sorted = false) : OfOrder query stats []

/-- What is logged of a scan with an outcome, from its begin to its end. -/
inductive OfScan (s : Scanner) (schema : Schema) (query : Query) (elapsedMicros : Nat) :
    Outcome → List LogEntry → Prop
  | unknownColumn {error : ScanError} (herror : query.unknownColumn? schema.width = some error) :
      OfScan s schema query elapsedMicros (.rejected error)
        [begunEntry query, failedEntry query error]
  /-- The first filter that breaks a contract ends the scan. -/
  | violation {filters : List (Condition × Nat)} {c : Condition} {later : List Condition}
      {violation : ContractViolation} (hknown : query.unknownColumn? schema.width = none)
      (hresidual : s.residual schema query = filters.map Prod.fst ++ c :: later)
      (hviolation : c.violation? = some violation)
      (hserved : Served (s.plan schema query).range filters) :
      OfScan s schema query elapsedMicros (.rejected (.contract violation))
        (begunEntry query :: narrowedEntries (s.plan schema query) filters ++
          [violatedEntry violation, failedEntry query (.contract violation)])
  | completed {filters : List (Condition × Nat)} {order : List LogEntry} {stats : Stats}
      (hknown : query.unknownColumn? schema.width = none)
      (hresidual : s.residual schema query = filters.map Prod.fst)
      (hserved : Served (s.plan schema query).range filters)
      (horder : OfOrder query stats order)
      (hconsidered : stats.rowsConsidered =
        (s.plan schema query).range.hi - (s.plan schema query).range.lo)
      (happlied : stats.filtersApplied = filters.length)
      (hreturned : (stats.rowsConsidered :: filters.map Prod.snd).getLast? =
        some stats.rowsReturned) :
      OfScan s schema query elapsedMicros (.completed stats)
        (begunEntry query :: narrowedEntries (s.plan schema query) filters ++ order ++
          [completedEntry query stats elapsedMicros])

theorem OfOrder.event {query : Query} {stats : Stats} {entries : List LogEntry}
    (h : OfOrder query stats entries) :
    ∀ e ∈ entries, e.event = "SORT_APPLIED" ∨ e.event = "SORT_SKIPPED" := by
  cases h with
  | sorted => simp [sortedEntry]
  | elided => simp [elidedEntry]
  | none => simp

end Transcript

/-! ## What a scan logs -/

theorem RowOrder.order_of_isNatural {schema : Schema} {query : Query} {keys : List SortKey}
    (hkeys : List.Forall₂ schema.IsKey query.order keys) (h : isNatural keys = true) :
    ∃ column, query.order = [⟨column, false⟩] := by
  match keys, h with
  | [k], h =>
    have hasc : k.descending = false := by simpa using (Bool.and_eq_true_iff.mp h).1
    obtain ⟨t, terms, ht, hnil, horder⟩ := List.forall₂_cons_right_iff.mp hkeys
    obtain rfl := List.forall₂_nil_right_iff.mp hnil
    refine ⟨t.column, ?_⟩
    rw [horder, ← hasc, ← ht.2]

namespace Scanner

open Transcript

variable (s : Scanner) {schema : Schema} {query : Query} {elapsedMicros : Nat}

theorem entries_run (h : query.unknownColumn? schema.width = none) :
    (s.run .all schema query).entries =
      selectionEntries ((schema.resolve query).select s.config schema.rowCount) := by
  simp only [run, Schema.prepare_eq, h]
  split <;> exact Logger.flatMap_log_all _

theorem entries_scan_of_completed {stats : Stats}
    (h : (s.run .all schema query).result = .ok stats) :
    (s.scan .all schema query elapsedMicros).entries =
      begunEntry query :: (s.run .all schema query).entries ++
        [completedEntry query stats elapsedMicros] := by
  simp only [scan, h, Logger.log_all, Logger.flatMap_log_all]
  rfl

section Filters

variable (schema query)

/-- The filters that a scan applied, with the rows that each left. -/
def filters : List (Condition × Nat) :=
  ((schema.resolve query).select s.config schema.rowCount).applied

theorem filters_eq : s.filters schema query =
    Condition.narrowing ((s.residual schema query).takeWhile (·.violation?.isNone))
      (s.plan schema query).candidates.toList := by
  rw [← residual_plan]
  exact Filtering.applied_ofConditions fun _ hc _ hrow => hasRow_of_mem_plan hc hrow

theorem served_filters : Served (s.plan schema query).range (s.filters schema query) := by
  rw [filters_eq]
  refine ⟨Plan.lo_le_hi_range, ?_, ?_, ?_⟩
  · intro f hf
    have hmem := List.mem_map_of_mem (f := Prod.fst) hf
    rw [Condition.map_fst_narrowing] at hmem
    exact Option.isNone_iff_eq_none.mp
      (List.mem_takeWhile_imp (p := fun c : Condition => c.violation?.isNone) hmem)
  · rw [Condition.map_fst_narrowing, Plan.candidates, Candidates.toList_ofRange]
  · have hcounts := Condition.pairwise_narrowing
      ((s.residual schema query).takeWhile (·.violation?.isNone))
      (s.plan schema query).candidates.toList
    rwa [Plan.length_candidates] at hcounts

theorem findSome?_residual : (s.residual schema query).findSome? Condition.violation? =
    query.violation? schema.kinds := by
  rw [← residual_plan, ← Schema.findSome?_conditions]
  exact Plan.findSome?_residual

variable {schema query}

theorem filters_of_no_violation (h : query.violation? schema.kinds = none) :
    s.residual schema query = (s.filters schema query).map Prod.fst ∧
      ((s.plan schema query).range.length :: (s.filters schema query).map Prod.snd).getLast? =
        some (s.admitted schema query).length := by
  have hserved : ∀ c ∈ s.residual schema query, c.violation? = none :=
    List.findSome?_eq_none_iff.mp ((s.findSome?_residual schema query).trans h)
  have hall : (s.residual schema query).takeWhile (·.violation?.isNone) =
      s.residual schema query :=
    List.takeWhile_eq_self_iff.mpr fun c hc => by simp [hserved c hc]
  rw [filters_eq, hall]
  constructor
  · rw [Condition.map_fst_narrowing]
  · rw [← Plan.length_candidates, Condition.getLast?_narrowing, ← residual_plan]
    exact congrArg (some ·.length) Prepared.filter_candidates_eq_admitted

end Filters

theorem ofOrder_arrangementEntries {config : Config} {keys : List SortKey}
    {candidates rows : List Nat} {how : Arrangement} {stats : Stats}
    (hkeys : List.Forall₂ schema.IsKey query.order keys)
    (ha : arrangeRows config keys candidates = .ok (how, rows))
    (hsorted : stats.sorted = (how == .sorted)) (hreturned : stats.rowsReturned = rows.length) :
    OfOrder query stats (arrangementEntries how rows.length) := by
  rcases arrangeRows_cases ha with ⟨rfl, -, -⟩ | ⟨rfl, -, hnatural⟩ | ⟨rfl, -⟩
  · exact .none hsorted
  · obtain ⟨column, horder⟩ := RowOrder.order_of_isNatural hkeys hnatural
    exact .elided hsorted horder
  · rw [← hreturned]
    exact .sorted hsorted

theorem ofScan_of_completed {stats : Stats}
    (h : (s.scan .all schema query elapsedMicros).outcome = .completed stats) :
    OfScan s schema query elapsedMicros (s.scan .all schema query elapsedMicros).outcome
      (s.scan .all schema query elapsedMicros).entries := by
  have hresult := result_run_of_completed h
  have hrejected := rejection?_of_completed h
  obtain ⟨hknown, hviolation⟩ := Schema.rejection?_eq_none_iff.mp hrejected
  obtain ⟨how, rows, ha, -, rfl⟩ := completed_cases h
  have hselect := (s.rows_select_of_no_rejection hrejected).trans ha
  have hrun : (s.run .all schema query).entries = narrowedEntries (s.plan schema query)
      (s.filters schema query) ++ arrangementEntries how rows.length := by
    rw [s.entries_run hknown, selectionEntries, hselect]
    rfl
  obtain ⟨hresidual, hlast⟩ := s.filters_of_no_violation hviolation
  rw [← (perm_of_arrangeRows ha).length_eq] at hlast
  rw [h, s.entries_scan_of_completed hresult, hrun, ← List.cons_append]
  refine .completed hknown hresidual (s.served_filters schema query) ?_ rfl ?_ hlast
  · exact ofOrder_arrangementEntries (Schema.forall₂_isKey hknown) ha rfl rfl
  · exact (length_applied_select hselect).symm

variable {s}

/-- The log of a scan that completes in words tells what was counted in words. -/
theorem ofScan_of_scanWords (hi : schema.Interned) (hq : query.constraints.length < UInt32.size)
    {stats : Stats} {calls : List SinkCall}
    (h : (s.scanWords schema query).run = some (.ok (stats, calls))) :
    stats.constraintsConsumed = (s.plan schema query).consumed ∧
      OfScan s schema query elapsedMicros (.completed stats)
        (s.scan ⟨.trace⟩ schema query elapsedMicros).entries := by
  have hout : (s.scan .all schema query elapsedMicros).outcome = .completed stats :=
    completed_of_scanWords hi hq h
  have htold := s.ofScan_of_completed hout
  rw [hout] at htold
  refine ⟨?_, htold⟩
  obtain ⟨_, _, _, _, rfl⟩ := completed_cases hout
  rfl

end Scanner

end Columnar
