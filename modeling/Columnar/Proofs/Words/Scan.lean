import Columnar.Proofs.Scan.Answer
import Columnar.Proofs.Scan.Completed
import Columnar.Proofs.Words.Candidates

/-! # Scans in words

A scan whose rows and numbers are words, and which has no value where one of them does not fit or an
element past the end of an array is asked for. Where every row has its text and the constraints can
be counted, each scan has a value: it completes or is rejected, as the scan in numbers does.
-/

namespace Columnar

/-- A step of a scan in words, which may end with an error or have no value. -/
abbrev WordStep := ExceptT ScanError Option

theorem WordStep.lift_bind {α β : Type} {x : Option α} {a : α} (h : x = some a)
    (f : α → WordStep β) : (liftM x >>= f : WordStep β) = f a := by
  subst h
  rfl

theorem WordStep.prepare_eq {schema : Schema} {query : Query}
    (h : query.unknownColumn? schema.width = none) :
    (ofExcept (schema.prepare query) : WordStep Prepared) = pure (schema.resolve query) := by
  rw [Schema.prepare_eq, h]
  rfl

/-! ## Definitions -/

def Column.filterWords (c : Column) (op : Operator) (literal : Value) (rows : WordCandidates) :
    WordStep WordCandidates :=
  if !c.isNumeric then pure rows
  else if !literal.isNumeric then throw (.contract ⟨c.name, literal.kind⟩)
  else rows.filter? (c.satisfies? op literal)

/-- Filters by one more constraint, and counts it and, for the log, the rows that it leaves. -/
def WordCandidates.apply (rows : WordCandidates × Word) (c : Condition) :
    WordStep (WordCandidates × Word) := do
  let kept ← c.column.filterWords c.op c.value rows.1
  let applied ← Word.add? rows.2 1
  let _remaining ← kept.count?
  return (kept, applied)

/--
The rows in the order of the keys. Any two of them have to be comparable, since it is left to the
sort which ones it compares.
-/
def RowOrder.sortWords? (keys : List SortKey) (rows : List Word) : Option (List Word) :=
  if rows.all fun a => rows.all fun b => (compare? keys a.toNat b.toNat).isSome then
    some (rows.mergeSort fun a b => (compare keys a.toNat b.toNat).isLE)
  else none

def arrangeWords? (config : Config) (keys : List SortKey) (rows : List Word) :
    Option (Arrangement × List Word) :=
  if keys.isEmpty || decide (rows.length ≤ 1) then some (.none, rows)
  else if config.naturalOrderSortElision && RowOrder.isNatural keys then some (.elided, rows)
  else (RowOrder.sortWords? keys rows).map (.sorted, ·)

/-- A row with the values that the columns report for it, all of which have to exist. -/
def ResultRow.ofWord? (outputs : List Column) (row : Word) : Option ResultRow := do
  return ⟨row.toNat, ← outputs.mapM (·.report? row.toNat)⟩

def reportWords? (outputs : List Column) (rows : List Word) : Option (List SinkCall) := do
  return (← rows.mapM (ResultRow.ofWord? outputs)).flatMap ResultRow.calls

/-- Scans a table in words, for the statistics of the scan and the calls of its sink. -/
def Scanner.scanWords (s : Scanner) (schema : Schema) (query : Query) :
    WordStep (Stats × List SinkCall) := do
  let prepared ← ofExcept (schema.prepare query)
  let plan ← WordPlan.ofConditions? s.config schema.wordCount prepared.conditions
  let candidates := WordCandidates.ofRange plan.range.lo plan.range.hi
  let (kept, applied) ← plan.residual.foldlM WordCandidates.apply (candidates, 0)
  let (how, rows) ← arrangeWords? s.config prepared.keys (← kept.toList?)
  let calls ← reportWords? prepared.outputs rows
  let returned ← Word.ofNat? rows.length
  let stats : Stats := {
    rowsConsidered := plan.range.length.toNat
    rowsReturned := returned.toNat
    constraintsConsumed := plan.consumed.toNat
    filtersApplied := applied.toNat
    sorted := how == .sorted }
  return (stats, calls)

/-- Whether a scan ended as given: with an error and no calls, or with statistics and calls. -/
def ScanRun.EndsAs (r : ScanRun) : Except ScanError (Stats × List SinkCall) → Prop
  | .ok (stats, calls) => r.outcome = .completed stats ∧ r.calls = calls
  | .error error => r.outcome = .rejected error ∧ r.calls = []

/-! ## Filtering -/

section Filtering

variable {c : Condition} {conditions : List Condition} {rows : WordCandidates} {applied : Word}

theorem Column.filterWords_of_violation {violation : ContractViolation}
    (h : c.violation? = some violation) (rows : WordCandidates) :
    c.column.filterWords c.op c.value rows = throw (.contract violation) := by
  obtain ⟨hn, hl, rfl⟩ := Condition.violation?_eq_some h
  simp only [filterWords, hn, hl, Bool.not_true, Bool.not_false, Bool.false_eq_true, if_false,
    if_true]

theorem Column.exists_filterWords (h : c.violation? = none) (hproper : rows.Proper)
    (hrows : ∀ row ∈ rows.rows, c.column.HasRow row) :
    ∃ kept, c.column.filterWords c.op c.value rows = pure kept ∧ kept.Proper ∧
      kept.rows = rows.rows.filter c.passes := by
  cases hn : c.column.isNumeric with
  | false =>
    rw [Condition.filter_passes_of_not_isNumeric hn]
    exact ⟨rows, by simp only [filterWords, hn, Bool.not_false, if_true], hproper, rfl⟩
  | true =>
    have hl : c.value.isNumeric = true := Condition.violation?_eq_none_iff.mp h hn
    obtain ⟨kept, hkept, hkeptProper, heq⟩ := WordCandidates.exists_filter? hproper fun row hrow =>
      Column.isSome_satisfies? (hrows row hrow) hn c.op c.value
    rw [Condition.passes_of_isNumeric hn]
    refine ⟨kept, ?_, hkeptProper, heq⟩
    simp only [filterWords, hn, hl, hkept, Bool.not_true, Bool.false_eq_true, if_false]
    rfl

theorem WordCandidates.exists_apply (h : c.violation? = none) (hproper : rows.Proper)
    (hrows : ∀ row ∈ rows.rows, c.column.HasRow row) (happlied : applied.toNat + 1 < UInt32.size) :
    ∃ kept count, apply (rows, applied) c = pure (kept, count) ∧ kept.Proper ∧
      kept.rows = rows.rows.filter c.passes ∧ count.toNat = applied.toNat + 1 := by
  obtain ⟨kept, hkept, hkeptProper, heq⟩ := Column.exists_filterWords h hproper hrows
  obtain ⟨count, hcount, hsum⟩ := Word.exists_add? (a := applied) (b := 1) happlied
  obtain ⟨remaining, hremaining, _⟩ := exists_count? hkeptProper
  refine ⟨kept, count, ?_, hkeptProper, heq, hsum⟩
  simp only [apply, hkept, pure_bind]
  rw [WordStep.lift_bind hcount, WordStep.lift_bind hremaining]

/--
Filtering by one constraint after another has a value: the first violation, or the rows that pass
all constraints.
-/
theorem WordCandidates.foldlM_apply (hproper : rows.Proper)
    (hrows : ∀ c ∈ conditions, ∀ row ∈ rows.rows, c.column.HasRow row)
    (happlied : applied.toNat + conditions.length < UInt32.size) :
    match conditions.findSome? Condition.violation? with
    | some violation =>
      conditions.foldlM apply (rows, applied) = throw (ScanError.contract violation)
    | none => ∃ kept count, conditions.foldlM apply (rows, applied) = pure (kept, count) ∧
        kept.Proper ∧ kept.rows = rows.rows.filter (fun row => conditions.all (·.passes row)) ∧
        count.toNat = applied.toNat + conditions.length := by
  induction conditions generalizing rows applied with
  | nil =>
    refine ⟨rows, applied, rfl, hproper, ?_, rfl⟩
    exact (List.filter_eq_self.mpr fun _ _ => rfl).symm
  | cons c conditions ih =>
    rw [List.length_cons] at happlied
    cases hv : c.violation? with
    | some violation =>
      simp only [List.findSome?_cons, hv]
      rw [List.foldlM_cons, apply, Column.filterWords_of_violation hv]
      rfl
    | none =>
      obtain ⟨next, count, hnext, hnextProper, heq, hcount⟩ :=
        exists_apply hv hproper (hrows c List.mem_cons_self)
          (show applied.toNat + 1 < UInt32.size by omega)
      have hrest (d : Condition) (hd : d ∈ conditions) (row : Nat) (hrow : row ∈ next.rows) :
          d.column.HasRow row :=
        hrows d (List.mem_cons_of_mem _ hd) row (List.mem_of_mem_filter (heq ▸ hrow))
      have ih := ih hnextProper hrest (show count.toNat + conditions.length < UInt32.size by omega)
      simp only [List.findSome?_cons, hv, List.foldlM_cons, hnext, pure_bind]
      revert ih
      cases conditions.findSome? Condition.violation? with
      | some violation => exact id
      | none =>
        rintro ⟨kept, total, hkept, hkeptProper, hrows, htotal⟩
        refine ⟨kept, total, hkept, hkeptProper, ?_, ?_⟩
        · rw [hrows, heq]
          simp only [List.filter_filter, List.all_cons, Bool.and_comm]
        · rw [htotal, hcount, List.length_cons]
          omega

end Filtering

/-! ## Arranging and reporting -/

section Rows

variable {config : Config} {keys : List SortKey} {outputs : List Column} {words : List Word}

theorem RowOrder.exists_sortWords?
    (h : ∀ k ∈ keys, ∀ row ∈ words.map UInt32.toNat, ∃ x, k.column.cell? row = some x) :
    ∃ sorted, sortWords? keys words = some sorted ∧
      sorted.map UInt32.toNat = arrange keys (words.map UInt32.toNat) := by
  have hcomparable : (words.all fun a => words.all fun b =>
      (compare? keys a.toNat b.toNat).isSome) = true := by
    rw [List.all_eq_true]
    intro a ha
    rw [List.all_eq_true]
    intro b hb
    exact isSome_compare? h (List.mem_map_of_mem ha) (List.mem_map_of_mem hb)
  exact ⟨_, if_pos hcomparable, List.map_mergeSort fun _ _ _ _ => rfl⟩

theorem exists_arrangeWords? (config : Config)
    (h : ∀ k ∈ keys, ∀ row ∈ words.map UInt32.toNat, ∃ x, k.column.cell? row = some x) :
    ∃ how arranged, arrangeWords? config keys words = some (how, arranged) ∧
      arrangeRows config keys (words.map UInt32.toNat) =
        .ok (how, arranged.map UInt32.toNat) := by
  unfold arrangeWords? arrangeRows
  rw [List.length_map]
  split
  · exact ⟨_, _, rfl, rfl⟩
  · split
    · exact ⟨_, _, rfl, rfl⟩
    · obtain ⟨sorted, hsorted, heq⟩ := RowOrder.exists_sortWords? h
      rw [RowOrder.sort?_eq_some h, hsorted, ← heq]
      exact ⟨_, _, rfl, rfl⟩

theorem mapM_eq_filterMap {α β : Type} {f : α → Option β} {xs : List α}
    (h : ∀ x ∈ xs, (f x).isSome = true) : xs.mapM f = some (xs.filterMap f) := by
  induction xs with
  | nil => rfl
  | cons x xs ih =>
    obtain ⟨y, hy⟩ := Option.isSome_iff_exists.mp (h x List.mem_cons_self)
    rw [List.mapM_cons, hy, ih fun x hx => h x (List.mem_cons_of_mem _ hx),
      List.filterMap_cons_some hy]
    rfl

theorem reportWords?_eq_some
    (h : ∀ row ∈ words.map UInt32.toNat, ∀ c ∈ outputs, ∃ x, c.cell? row = some x) :
    reportWords? outputs words = some (report outputs (words.map UInt32.toNat)).1 := by
  have hrow : ∀ word ∈ words,
      ResultRow.ofWord? outputs word = some (ResultRow.ofColumns outputs word.toNat) := by
    intro word hword
    rw [ResultRow.ofWord?, mapM_eq_filterMap]
    · rfl
    · intro c hc
      obtain ⟨x, hx⟩ := h word.toNat (List.mem_map_of_mem hword) c hc
      rw [Column.report?, hx]
      rfl
  have hresults : words.mapM (ResultRow.ofWord? outputs) =
      some (words.map fun word => ResultRow.ofColumns outputs word.toNat) := by
    rw [mapM_eq_filterMap fun word hword => by rw [hrow word hword]; rfl,
      List.filterMap_congr hrow, List.filterMap_eq_map']
  rw [reportWords?, hresults, calls_report (report_complete h), List.flatMap_map]
  simp only [Option.bind_eq_bind, Option.bind_some, List.flatMap_map, Option.pure_def]

end Rows

/-! ## Scans -/

namespace Scanner

variable {s : Scanner} {logger : Logger} {schema : Schema} {query : Query} {elapsedMicros : Nat}

theorem length_residual_plan_le (s : Scanner) (schema : Schema) (query : Query) :
    (s.plan schema query).residual.length ≤ query.constraints.length := by
  have hconditions : (schema.resolve query).conditions.length ≤ query.constraints.length :=
    List.length_filterMap_le _ _
  have hsplit : (s.plan schema query).consumed + (s.plan schema query).residual.length =
      (schema.resolve query).conditions.length := Plan.consumed_add_length_residual
  omega

theorem exists_filtering (s : Scanner) (schema : Schema)
    (hq : query.constraints.length < UInt32.size) :
    ∃ words, WordPlan.ofConditions? s.config schema.wordCount (schema.resolve query).conditions =
        some words ∧ words.toPlan = s.plan schema query ∧
      match query.violation? schema.kinds with
      | some violation =>
        words.residual.foldlM WordCandidates.apply (.ofRange words.range.lo words.range.hi, 0) =
          throw (ScanError.contract violation)
      | none => ∃ kept count,
        words.residual.foldlM WordCandidates.apply (.ofRange words.range.lo words.range.hi, 0) =
          pure (kept, count) ∧ kept.Proper ∧ kept.rows = s.admitted schema query ∧
            count.toNat = (s.plan schema query).residual.length := by
  have hlength : (schema.resolve query).conditions.length ≤ query.constraints.length :=
    List.length_filterMap_le _ _
  obtain ⟨words, hwords, heq⟩ :=
    WordPlan.exists_ofConditions? s.config schema.wordCount (Nat.lt_of_le_of_lt hlength hq)
  rw [Schema.toNat_wordCount] at heq
  change words.toPlan = s.plan schema query at heq
  refine ⟨words, hwords, heq, ?_⟩
  have hresidual : words.residual = (s.plan schema query).residual := congrArg Plan.residual heq
  have hrows : (WordCandidates.ofRange words.range.lo words.range.hi).rows =
      (s.plan schema query).candidates.toList := by
    rw [WordCandidates.rows_ofRange, ← heq]
    rfl
  have happlied : (0 : Word).toNat + words.residual.length < UInt32.size := by
    have := length_residual_plan_le s schema query
    rw [hresidual, UInt32.toNat_zero]
    omega
  have hstored : ∀ c ∈ words.residual,
      ∀ row ∈ (WordCandidates.ofRange words.range.lo words.range.hi).rows,
        c.column.HasRow row := by
    intro c hc row hrow
    rw [hresidual] at hc
    rw [hrows] at hrow
    exact hasRow_of_mem_plan hc hrow
  have hfilter := WordCandidates.foldlM_apply (WordCandidates.proper_ofRange _ _) hstored happlied
  rw [hrows, hresidual] at hfilter
  simp only [plan, Plan.findSome?_residual, Schema.findSome?_conditions,
    Prepared.filter_candidates_eq_admitted] at hfilter
  rw [hresidual]
  simp only [plan, admitted]
  simpa using hfilter

theorem length_admitted_le : (s.admitted schema query).length ≤ rowLimit := by
  refine Nat.le_trans (List.length_filter_le _ _) ?_
  rw [List.length_range]
  exact Schema.rowCount_le_rowLimit

theorem exists_reporting (hi : schema.Interned) {words : List Word}
    (h : words.map UInt32.toNat = s.admitted schema query) :
    ∃ how arranged, arrangeWords? s.config (schema.resolve query).keys words =
        some (how, arranged) ∧
      arrangeRows s.config (schema.resolve query).keys (s.admitted schema query) =
        .ok (how, arranged.map UInt32.toNat) ∧
      reportWords? (schema.resolve query).outputs arranged =
        some (report (schema.resolve query).outputs (arranged.map UInt32.toNat)).1 ∧
      arranged.length < UInt32.size := by
  have hkeys : ∀ k ∈ (schema.resolve query).keys, ∀ row ∈ words.map UInt32.toNat,
      ∃ x, k.column.cell? row = some x := by
    intro k hk row hrow
    rw [h] at hrow
    exact exists_cell_of_mem_admitted hi (Schema.column_mem_of_mem_keys hk) hrow
  obtain ⟨how, arranged, harranged, ha⟩ := exists_arrangeWords? s.config hkeys
  rw [h] at ha
  have hperm := perm_of_arrangeRows ha
  refine ⟨how, arranged, harranged, ha, ?_, ?_⟩
  · refine reportWords?_eq_some fun row hrow c hc => ?_
    exact exists_cell_of_mem_admitted hi (Schema.mem_of_mem_outputs hc) (hperm.mem_iff.mp hrow)
  · have hlength := hperm.length_eq
    rw [List.length_map] at hlength
    rw [hlength]
    exact Nat.lt_of_le_of_lt length_admitted_le (by decide)

theorem scanWords_of_rejected (hq : query.constraints.length < UInt32.size) {error : ScanError}
    (h : (s.scan logger schema query elapsedMicros).outcome = .rejected error) :
    (s.scanWords schema query).run = some (.error error) := by
  rcases Schema.rejection?_eq_some_iff.mp (rejection?_of_rejected h) with
    hu | ⟨hu, violation, hv, rfl⟩
  · simp only [scanWords, Schema.prepare_eq, hu]
    rfl
  · obtain ⟨words, hwords, _, hfilter⟩ := exists_filtering s schema hq
    rw [hv] at hfilter
    rw [scanWords, WordStep.prepare_eq hu, pure_bind, WordStep.lift_bind hwords]
    dsimp only
    rw [hfilter]
    rfl

theorem scanWords_of_completed (hi : schema.Interned)
    (hq : query.constraints.length < UInt32.size) {stats : Stats}
    (h : (s.scan logger schema query elapsedMicros).outcome = .completed stats) :
    (s.scanWords schema query).run =
      some (.ok (stats, (s.scan logger schema query elapsedMicros).calls)) := by
  have hrej := rejection?_of_completed h
  obtain ⟨hu, hv⟩ := Schema.rejection?_eq_none_iff.mp hrej
  obtain ⟨words, hwords, hplan, hfilter⟩ := exists_filtering s schema hq
  rw [hv] at hfilter
  obtain ⟨kept, count, hkept, hproper, hrows, hcount⟩ := hfilter
  obtain ⟨selected, hselected, heq⟩ := WordCandidates.exists_toList? hproper
  obtain ⟨how, arranged, harranged, ha, hreport, hlength⟩ := exists_reporting hi (heq.trans hrows)
  obtain ⟨returned, hreturned, hreturnedEq⟩ := Word.exists_ofNat? hlength
  obtain ⟨how', ha', hcalls, hout⟩ := (s.scan_of_no_rejection logger elapsedMicros
    hrej).resolve_left (outcome_ne_faulted hi)
  -- The scan in numbers arranged the same rows, so its report and its statistics are these.
  have hsame := ha'
  rw [ha] at hsame
  obtain ⟨rfl, hscanned⟩ := Prod.mk.inj (Except.ok.inj hsame)
  rw [h, selectionStats_eq hrej ha', ← hscanned] at hout
  rw [Outcome.completed.inj hout, hcalls, ← hscanned]
  rw [scanWords, WordStep.prepare_eq hu, pure_bind, WordStep.lift_bind hwords]
  dsimp only
  rw [hkept, pure_bind]
  dsimp only
  rw [WordStep.lift_bind hselected, WordStep.lift_bind harranged]
  dsimp only
  rw [WordStep.lift_bind hreport, WordStep.lift_bind hreturned]
  simp only [WordBounds.toNat_length, hreturnedEq, hcount, ← hplan, List.length_map]
  rfl

theorem completed_of_scanWords (hi : schema.Interned)
    (hq : query.constraints.length < UInt32.size) {stats : Stats} {calls : List SinkCall}
    (h : (s.scanWords schema query).run = some (.ok (stats, calls))) :
    (s.scan logger schema query elapsedMicros).outcome = .completed stats := by
  cases hout : (s.scan logger schema query elapsedMicros).outcome with
  | completed stats' =>
    rw [scanWords_of_completed hi hq hout] at h
    cases h
    rfl
  | rejected error =>
    rw [scanWords_of_rejected hq hout] at h
    cases h
  | faulted => exact absurd hout (outcome_ne_faulted hi)

/--
A scan in words has a value, which is how the scan ended: no element past the end of an array is
asked for, and no row, number of rows or number of constraints is too large or too small for a word.
Every row has its text, and there are fewer constraints than words.
-/
theorem exists_scanWords (hi : schema.Interned) (hq : query.constraints.length < UInt32.size) :
    ∃ ending, (s.scanWords schema query).run = some ending ∧
      (s.scan logger schema query elapsedMicros).EndsAs ending := by
  cases hout : (s.scan logger schema query elapsedMicros).outcome with
  | completed stats => exact ⟨_, scanWords_of_completed hi hq hout, hout, rfl⟩
  | rejected error =>
    have hcalls := (s.scan_of_rejection logger elapsedMicros (rejection?_of_rejected hout)).2.1
    exact ⟨_, scanWords_of_rejected hq hout, hout, hcalls⟩
  | faulted => exact absurd hout (outcome_ne_faulted hi)

/-- Columns of four lengths; the row with the dangling text lies beyond the shortest one. -/
def spans : Schema where
  columns :=
    [.numeric "time" (.integer .uint8)
      #[⟨1, by decide⟩, ⟨2, by decide⟩, ⟨2, by decide⟩, ⟨5, by decide⟩] false true,
     .text "sensor" #[0, 1, 7] #["a", "b"] false,
     .endTime "end" #[1, 2, 2, 5, 6] #[3, 4],
     .rowId "id" 1]
  fixedRowCount := some 9

theorem interned_spans : spans.Interned := by
  intro c hc
  simp only [spans, List.mem_cons, List.not_mem_nil, or_false] at hc
  rcases hc with rfl | rfl | rfl | rfl
  · trivial
  · intro row hrow id hid
    have hcount : spans.rowCount = 2 := by decide
    rw [hcount] at hrow
    rcases row with _ | _ | row
    · cases hid
      decide
    · cases hid
      decide
    · omega
  · trivial
  · trivial

theorem exists_scanWords_spans :
    (({} : Scanner).scanWords spans { latest with columns := [2] }).run =
        some (.ok (⟨1, 1, 1, 0, false⟩, [.beginRow 1, .value (.integer 6)])) ∧
      ∃ ending, (({} : Scanner).scanWords spans { latest with columns := [2] }).run = some ending ∧
        (({} : Scanner).scan {} spans { latest with columns := [2] } 0).EndsAs ending :=
  ⟨by decide +kernel, exists_scanWords interned_spans (by decide)⟩

end Scanner

end Columnar
