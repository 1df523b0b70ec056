import Columnar.Proofs.Bounds
import Columnar.Proofs.Scan.Answer
import Columnar.Proofs.Scan.Completed

/-! # Constraints as a conjunction

The constraints of a query count as a set. More of them leave fewer rows, which a scan reports with
the same values and in the same order, and their order and repetition do not show in its report.
-/

namespace Columnar

/-! ## Arranging fewer rows -/

section Arrangement

variable {config : Config} {keys : List SortKey} {rows rows' sorted sorted' : List Nat}
  {how how' : Arrangement}

/-- The order that a scan gives to ascending rows: by row if it leaves them so, or by the keys. -/
def RowOrder.Follows (config : Config) (keys : List SortKey) (a b : Nat) : Prop :=
  if config.naturalOrderSortElision && isNatural keys then a < b
  else compare keys a b = .lt ∨ compare keys a b = .eq ∧ a < b

instance : Std.Antisymm (RowOrder.Follows config keys) where
  antisymm a b hab hba := by
    have hswap : RowOrder.compare keys b a = (RowOrder.compare keys a b).swap :=
      Std.OrientedCmp.eq_swap
    unfold RowOrder.Follows at hab hba
    split at hab
    · rename_i h
      rw [if_pos h] at hba
      omega
    · rename_i h
      rw [if_neg h, hswap] at hba
      rcases hab with hab | ⟨hab, _⟩
      · rw [hab] at hba
        simp at hba
      · rw [hab] at hba
        simp at hba
        omega

theorem pairwise_arrangeRows (h : arrangeRows config keys rows = .ok (how, sorted))
    (hrows : rows.Pairwise (· < ·)) : sorted.Pairwise (RowOrder.Follows config keys) := by
  unfold arrangeRows at h
  split at h
  · rename_i hnone
    cases h
    rcases Bool.or_eq_true_iff.mp hnone with hkeys | hle
    · obtain rfl := List.isEmpty_iff.mp hkeys
      refine hrows.imp fun hlt => ?_
      simp only [RowOrder.Follows, RowOrder.isNatural, Bool.and_false]
      exact .inr ⟨rfl, hlt⟩
    · rcases rows with _ | ⟨row, _ | ⟨next, rows⟩⟩
      · exact .nil
      · exact List.pairwise_singleton _ _
      · simp at hle
  · split at h
    · rename_i hnatural
      cases h
      exact hrows.imp fun hlt => by rwa [RowOrder.Follows, if_pos hnatural]
    · rename_i hnatural
      split at h
      · rename_i hsort
        cases h
        obtain ⟨rfl, -⟩ := RowOrder.sort?_eq_some_iff.mp hsort
        refine (RowOrder.pairwise_arrange.and (RowOrder.pairwise_tied hrows)).imp ?_
        rintro a b ⟨hle, htied⟩
        rw [RowOrder.Follows, if_neg hnatural]
        rcases Ordering.isLE_iff_eq_lt_or_eq_eq.mp hle with hlt | heq
        · exact .inl hlt
        · exact .inr ⟨heq, htied heq⟩
      · cases h

/-- Of the rows that a scan arranges, it arranges any others alike. -/
theorem sublist_of_arrangeRows (h : arrangeRows config keys rows = .ok (how, sorted))
    (h' : arrangeRows config keys rows' = .ok (how', sorted')) (hrows : rows.Pairwise (· < ·))
    (hrows' : rows'.Pairwise (· < ·)) (hsub : ∀ row ∈ rows', row ∈ rows) :
    sorted'.Sublist sorted := by
  have hperm := perm_of_arrangeRows h
  have hperm' := perm_of_arrangeRows h'
  have hnodup : sorted'.Nodup := hperm'.nodup_iff.mpr (hrows'.imp Nat.ne_of_lt)
  have hsubset : sorted' ⊆ sorted := fun row hrow =>
    hperm.mem_iff.mpr (hsub row (hperm'.mem_iff.mp hrow))
  exact List.sublist_of_subperm_of_pairwise (List.subperm_of_subset hnodup hsubset)
    (pairwise_arrangeRows h' hrows') (pairwise_arrangeRows h hrows)

end Arrangement

/-! ## Plans of the same constraints -/

namespace Plan

variable {config : Config} {n : Nat} {conditions conditions' : List Condition}

theorem range_of_perm (h : conditions.Perm conditions') :
    (ofConditions config n conditions).range = (ofConditions config n conditions').range := by
  unfold ofConditions
  split
  · simp only [← List.foldl_map (f := Condition.bounds)]
    exact Bounds.foldl_intersect_of_perm (h.map Condition.bounds) (.full n)
  · rfl

theorem consumed_of_perm (h : conditions.Perm conditions') :
    (ofConditions config n conditions).consumed = (ofConditions config n conditions').consumed := by
  unfold ofConditions
  split
  · exact h.countP_eq _
  · rfl

theorem length_residual_of_perm (h : conditions.Perm conditions') :
    (ofConditions config n conditions).residual.length =
      (ofConditions config n conditions').residual.length := by
  unfold ofConditions
  split
  · exact (h.filter _).length_eq
  · exact h.length_eq

end Plan

namespace Scanner

variable {s : Scanner} {logger logger' : Logger} {schema : Schema} {query query' : Query}
  {elapsedMicros elapsedMicros' : Nat} {stats stats' : Stats}

theorem mem_admitted_of_subset (h : ∀ c ∈ query.constraints, c ∈ query'.constraints) {row : Nat}
    (hrow : row ∈ s.admitted schema query') : row ∈ s.admitted schema query := by
  obtain ⟨hlt, hall⟩ := Prepared.mem_admitted_iff.mp hrow
  refine Prepared.mem_admitted_iff.mpr ⟨hlt, ?_⟩
  rw [Schema.forall_conditions_iff] at hall ⊢
  exact fun c hc => hall c (h c hc)

/--
Of two queries that differ in their constraints alone, the one with all constraints of the other
reports some of its rows, with their values and in their order. The order and the repetition of
constraints do not show in the rows, and their order does not show in the statistics either.
-/
theorem results_scan_sublist
    (h : (s.scan logger schema query elapsedMicros).outcome = .completed stats)
    (h' : (s.scan logger' schema query' elapsedMicros').outcome = .completed stats')
    (horder : query.order = query'.order) (hcolumns : query.columns = query'.columns)
    (hsub : ∀ c ∈ query.constraints, c ∈ query'.constraints) :
    (s.scan logger' schema query' elapsedMicros').results.Sublist
        (s.scan logger schema query elapsedMicros).results ∧
      ((∀ c ∈ query'.constraints, c ∈ query.constraints) →
        (s.scan logger' schema query' elapsedMicros').results =
          (s.scan logger schema query elapsedMicros).results) ∧
      (query.constraints.Perm query'.constraints → stats' = stats) := by
  obtain ⟨how, rows, ha, hresults, hstats⟩ := completed_cases h
  obtain ⟨how', rows', ha', hresults', hstats'⟩ := completed_cases h'
  have hkeys : (schema.resolve query').keys = (schema.resolve query).keys := by
    simp only [Schema.resolve, horder]
  have houtputs : (schema.resolve query').outputs = (schema.resolve query).outputs := by
    simp only [Schema.resolve, hcolumns]
  rw [hkeys] at ha'
  rw [houtputs] at hresults'
  have hrows : rows'.Sublist rows := sublist_of_arrangeRows ha ha' pairwise_admitted
    pairwise_admitted fun row => mem_admitted_of_subset hsub
  have hsame (hsub' : ∀ c ∈ query'.constraints, c ∈ query.constraints) :
      s.admitted schema query' = s.admitted schema query :=
    pairwise_admitted.eq_of_mem_iff pairwise_admitted fun row =>
      ⟨mem_admitted_of_subset hsub, mem_admitted_of_subset hsub'⟩
  rw [hresults, hresults']
  refine ⟨hrows.map _, fun hsub' => ?_, fun hperm => ?_⟩
  · rw [hsame hsub', ha] at ha'
    obtain ⟨_, rfl⟩ := Prod.mk.inj (Except.ok.inj ha')
    rfl
  · rw [hsame fun c hc => hperm.mem_iff.mpr hc, ha] at ha'
    obtain ⟨rfl, rfl⟩ := Prod.mk.inj (Except.ok.inj ha')
    have hconditions : (schema.resolve query').conditions.Perm (schema.resolve query).conditions :=
      (hperm.symm.filterMap _)
    rw [hstats, hstats']
    simp only [plan, Plan.range_of_perm hconditions, Plan.consumed_of_perm hconditions,
      Plan.length_residual_of_perm hconditions]

/-- The latest readings without the last one; a constraint is given twice. -/
def almostLatest : Query where
  constraints := [.ge 0 (.integer 2), ⟨0, .ne, .integer 5⟩, .ge 0 (.integer 2)]
  order := latest.order

theorem results_scan_sublist_latest :
    (({} : Scanner).scan {} readings almostLatest 0).rows = [1, 2] ∧
      (({} : Scanner).scan {} readings latest 0).rows = [1, 3, 2] ∧
      (({} : Scanner).scan {} readings almostLatest 0).results.Sublist
        (({} : Scanner).scan {} readings latest 0).results := by
  have hrows : (({} : Scanner).scan {} readings almostLatest 0).rows = [1, 2] := by
    simp only [scan, run, Prepared.select, arrangeRows, RowOrder.sort?_eq_insertionSort]
    decide +kernel
  have h : (({} : Scanner).scan {} readings almostLatest 0).outcome =
      .completed ⟨3, 2, 2, 1, true⟩ := by
    simp only [scan, run, Prepared.select, arrangeRows, RowOrder.sort?_eq_insertionSort]
    decide +kernel
  exact ⟨hrows, rows_latest, (results_scan_sublist outcome_latest h rfl rfl (by decide)).1⟩

end Scanner

end Columnar
