import Columnar.Proofs.Scan.Answer

/-! # Scans with and without pruning

Pruning spares a scan rows without changing its answer, with one exception: next to an infinity in
an ordered column of doubles, an equality with the finite extreme of the type takes the infinity for
its literal. The two scans of a query agree if and only if no row is selected by such a mistake.
-/

namespace Columnar

/-- Whether a scan with pruning ended like one without it, and considered no more rows. -/
def Outcome.Agrees : Outcome → Outcome → Prop
  | .completed pruned, .completed whole =>
    pruned.rowsReturned = whole.rowsReturned ∧ pruned.rowsConsidered ≤ whole.rowsConsidered
  | .rejected error, .rejected error' => error = error'
  | _, _ => False

/-- Whether a scan with pruning answered like one without it, call for call. -/
def ScanRun.Agrees (pruned whole : ScanRun) : Prop :=
  pruned.outcome.Agrees whole.outcome ∧ pruned.calls = whole.calls

namespace Scanner

variable {s : Scanner} {logger logger' : Logger} {schema : Schema} {query : Query}
  {elapsedMicros elapsedMicros' : Nat}

/-- The scanner with pruning turned on or off. -/
def withPruning (s : Scanner) (pruning : Bool) : Scanner :=
  { s with config := { s.config with boundPruning := pruning } }

theorem rowsConsidered_le {how how' : Arrangement} {rows rows' : List Nat} :
    (selectionStats ((schema.resolve query).select (s.withPruning true).config schema.rowCount)
        how rows).rowsConsidered ≤
      (selectionStats ((schema.resolve query).select (s.withPruning false).config schema.rowCount)
        how' rows').rowsConsidered := by
  change (Plan.ofConditions _ _ _).range.length ≤ (Plan.ofConditions _ _ _).range.length
  have hwhole : (s.withPruning false).config.boundPruning = false := rfl
  rw [Plan.length_range_of_not_pruning hwhole]
  exact Plan.length_range_le

/-- The two scans of a query that is not rejected agree if and only if they select the same rows. -/
theorem agrees_iff_admitted_eq (hi : schema.Interned) (h : query.rejection? schema.kinds = none) :
    ((s.withPruning true).scan logger schema query elapsedMicros).Agrees
        ((s.withPruning false).scan logger' schema query elapsedMicros') ↔
      (s.withPruning true).admitted schema query = (s.withPruning false).admitted schema query := by
  obtain ⟨how, ha, hcalls, hout⟩ := ((s.withPruning true).scan_of_no_rejection logger elapsedMicros
    h).resolve_left (outcome_ne_faulted hi)
  obtain ⟨how', ha', hcalls', hout'⟩ := ((s.withPruning false).scan_of_no_rejection logger'
    elapsedMicros' h).resolve_left (outcome_ne_faulted hi)
  constructor
  · rintro ⟨_, hcalls⟩
    -- Equal calls begin the same rows, and each report permutes what its scan selects.
    have hrows := congrArg (List.filterMap SinkCall.row?) hcalls
    change ScanRun.rows _ = ScanRun.rows _ at hrows
    rw [hrows] at ha
    have hperm := (perm_of_arrangeRows ha).symm.trans (perm_of_arrangeRows ha')
    exact pairwise_admitted.eq_of_mem_iff pairwise_admitted fun row => hperm.mem_iff
  · intro heq
    rw [heq] at ha
    obtain ⟨_, hrows⟩ := Prod.mk.inj (Except.ok.inj (ha.symm.trans ha'))
    constructor
    · rw [hout, hout']
      exact ⟨congrArg List.length hrows, rowsConsidered_le⟩
    · rw [hcalls, hcalls', hrows]

/--
The scans of a query with and without pruning agree, except that a row on which bounds take an
infinity for the literal of a constraint is reported by pruning alone. Columns that promise order
ascend without NaN, and every row has its text.
-/
theorem agrees_pruning_iff (hs : schema.Ascending) (hn : schema.OrderedAll (!·.isNaN))
    (hi : schema.Interned) :
    ((s.withPruning true).scan logger schema query elapsedMicros).Agrees
        ((s.withPruning false).scan logger' schema query elapsedMicros') ↔
      (query.rejection? schema.kinds = none → ∀ row < schema.rowCount,
        (∀ c ∈ query.constraints, schema.HoldsAt c row ∨ schema.OverreachedAt c row) →
          ∀ c ∈ query.constraints, schema.HoldsAt c row) := by
  cases hr : query.rejection? schema.kinds with
  | some error =>
    obtain ⟨hout, hcalls, _⟩ := (s.withPruning true).scan_of_rejection logger elapsedMicros hr
    obtain ⟨hout', hcalls', _⟩ := (s.withPruning false).scan_of_rejection logger' elapsedMicros' hr
    refine iff_of_true ⟨?_, hcalls.trans hcalls'.symm⟩ (fun h => by cases h)
    rw [hout, hout']
    exact rfl
  | none =>
    have hpruned {row : Nat} : row ∈ (s.withPruning true).admitted schema query ↔
        row < schema.rowCount ∧
          ∀ c ∈ query.constraints, schema.HoldsAt c row ∨ schema.OverreachedAt c row := by
      simpa only [withPruning, true_and] using (s.withPruning true).mem_admitted_iff hr hs hn
    have hwhole {row : Nat} : row ∈ (s.withPruning false).admitted schema query ↔
        row < schema.rowCount ∧ ∀ c ∈ query.constraints, schema.HoldsAt c row := by
      simpa only [withPruning, Bool.false_eq_true, false_and, or_false] using
        (s.withPruning false).mem_admitted_iff hr hs hn
    rw [agrees_iff_admitted_eq hi hr]
    constructor
    · intro heq _ row hrow hall
      exact (hwhole.mp (heq ▸ hpruned.mpr ⟨hrow, hall⟩)).2
    · intro h
      refine pairwise_admitted.eq_of_mem_iff pairwise_admitted fun row => ?_
      rw [hpruned, hwhole]
      refine and_congr_right fun hrow => ?_
      exact ⟨h rfl row hrow, fun hall c hc => .inl (hall c hc)⟩

/-- A column of doubles that begins below all finite ones. -/
def depths : Schema where
  columns := [.numeric "depth" .double #[⟨0xfff0000000000000⟩, ⟨0⟩] false true]

theorem ascending_depths : depths.Ascending := by
  intro c hc _
  obtain rfl := List.mem_singleton.mp hc
  exact Column.ascending_numeric_iff.mpr (by decide)

theorem orderedAll_depths : depths.OrderedAll (!·.isNaN) := by
  intro c hc _
  obtain rfl := List.mem_singleton.mp hc
  exact Column.all_numeric_iff.mpr (by decide)

theorem interned_depths : depths.Interned := by
  intro c hc
  obtain rfl := List.mem_singleton.mp hc
  trivial

/-- An inequality with the least finite double makes no mistake about infinity. -/
theorem agrees_pruning_depths :
    ((({} : Scanner).withPruning true).scan {} depths { constraints := [.gt 0 (.float .least)] }
      0).Agrees ((({} : Scanner).withPruning false).scan {} depths
        { constraints := [.gt 0 (.float .least)] } 0) := by
  refine (agrees_pruning_iff ascending_depths orderedAll_depths interned_depths).mpr ?_
  intro _ row _ hall c hc
  rcases hall c hc with h | ⟨column, _, _, x, _, hx⟩
  · exact h
  · obtain rfl := List.mem_singleton.mp hc
    cases x <;> cases hx

/-- An equality with the least finite double finds negative infinity if bounds answer it. -/
theorem not_agrees_pruning_depths :
    depths.Ascending ∧ depths.OrderedAll (!·.isNaN) ∧ depths.Interned ∧
      ¬ ((({} : Scanner).withPruning true).scan {} depths { constraints := [.eq 0 (.float .least)] }
        0).Agrees ((({} : Scanner).withPruning false).scan {} depths
          { constraints := [.eq 0 (.float .least)] } 0) := by
  refine ⟨ascending_depths, orderedAll_depths, interned_depths, ?_⟩
  have hpruned : ((({} : Scanner).withPruning true).scan {} depths
      { constraints := [.eq 0 (.float .least)] } 0).outcome = .completed ⟨1, 1, 1, 0, false⟩ := by
    decide +kernel
  have hwhole : ((({} : Scanner).withPruning false).scan {} depths
      { constraints := [.eq 0 (.float .least)] } 0).outcome = .completed ⟨2, 0, 0, 1, false⟩ := by
    decide +kernel
  rintro ⟨h, _⟩
  rw [hpruned, hwhole] at h
  exact absurd h.1 (by decide)

end Scanner

end Columnar
