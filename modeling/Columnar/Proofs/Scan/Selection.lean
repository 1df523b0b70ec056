import Mathlib.Data.List.Sort
import Columnar.Proofs.Candidates
import Columnar.Proofs.Column.Bounds
import Columnar.Proofs.Column.Filter
import Columnar.Scan.Selection

/-! # The rows that a scan selects

Filtering stops at the first constraint whose literal is no number, and otherwise keeps the rows
that pass all constraints. With pruning or without it, the rows selected are those of the table that
every constraint admits.
-/

namespace Columnar

namespace Condition

/-- Whether a filter by the constraint keeps a row. -/
def passes (c : Condition) (row : Nat) : Bool :=
  !c.column.isNumeric || c.column.satisfies? c.op c.value row == some true

/-- What a filter by the constraint is refused for. -/
def violation? (c : Condition) : Option ContractViolation :=
  if c.column.isNumeric && !c.value.isNumeric then some ⟨c.column.name, c.value.kind⟩ else none

/-- Whether a scan with the options selects a row as far as the constraint goes. -/
def admits (config : Config) (c : Condition) (row : Nat) : Bool :=
  if config.boundPruning then c.bounds.contains row && (c.bounds.consumed || c.passes row)
  else c.passes row

/-- What the constraint says of a row, which is nothing on a text column. -/
def Holds (c : Condition) (row : Nat) : Prop :=
  c.column.isNumeric = true → ∃ x ∈ c.column.cell? row, c.op.Accepts x c.value

/-- Whether bounds take an infinity at a row for the literal of the constraint. -/
def Overreaches (c : Condition) (row : Nat) : Prop :=
  c.column.naturallyOrdered = true ∧
    ∃ x ∈ c.column.cell? row, x.overreaches c.op c.value = true

theorem violation?_eq_none_iff {c : Condition} :
    c.violation? = none ↔ (c.column.isNumeric = true → c.value.isNumeric = true) := by
  simp only [violation?, ite_eq_right_iff, reduceCtorEq, imp_false, Bool.and_eq_true,
    Bool.not_eq_true', not_and, Bool.not_eq_false]

theorem violation?_eq_some {c : Condition} {violation : ContractViolation}
    (h : c.violation? = some violation) :
    c.column.isNumeric = true ∧ c.value.isNumeric = false ∧
      violation = ⟨c.column.name, c.value.kind⟩ := by
  simp only [violation?, Option.ite_none_right_eq_some, Bool.and_eq_true, Bool.not_eq_true',
    Option.some.injEq] at h
  exact ⟨h.1.1, h.1.2, h.2.symm⟩

theorem passes_of_isNumeric {c : Condition} (h : c.column.isNumeric = true) :
    c.passes = (c.column.satisfies? c.op c.value · == some true) := by
  funext row
  simp only [passes, h, Bool.not_true, Bool.false_or]

theorem filter_passes_of_not_isNumeric {c : Condition} (h : c.column.isNumeric = false)
    (rows : List Nat) : rows.filter c.passes = rows := by
  refine List.filter_eq_self.mpr fun row _ => ?_
  simp only [passes, h, Bool.not_false, Bool.true_or]

theorem passes_iff {c : Condition} {row : Nat} (h : c.violation? = none) :
    c.passes row = true ↔ c.Holds row := by
  rw [violation?_eq_none_iff] at h
  simp only [passes, Holds, Bool.or_eq_true, Bool.not_eq_true', beq_iff_eq, Column.satisfies?,
    Option.map_eq_some_iff]
  cases hn : c.column.isNumeric with
  | false => simp only [true_or, Bool.false_eq_true, false_imp_iff]
  | true =>
    simp only [Bool.true_eq_false, false_or, true_imp_iff]
    refine exists_congr fun x => and_congr_right fun hx => ?_
    exact Cell.satisfies_iff (Column.isSome_asFloat? hn hx) (h hn)

theorem violation?_of_consumed {c : Condition} (h : c.bounds.consumed = true) :
    c.violation? = none := by
  obtain ⟨_, _, hl⟩ := Column.isNumeric_of_consumed h
  exact violation?_eq_none_iff.mpr fun _ => hl

theorem admits_iff {config : Config} {c : Condition} {row : Nat} (hv : c.violation? = none)
    (hs : c.column.naturallyOrdered = true → c.column.Ascending)
    (hn : c.column.naturallyOrdered = true → c.column.All (!·.isNaN)) (hr : c.column.HasRow row) :
    c.admits config row = true ↔
      c.Holds row ∨ config.boundPruning = true ∧ c.Overreaches row := by
  rw [admits]
  cases config.boundPruning with
  | false =>
    rw [if_neg Bool.false_ne_true, passes_iff hv]
    simp only [Bool.false_eq_true, false_and, or_false]
  | true =>
    rw [if_pos rfl, Bool.and_eq_true, Bool.or_eq_true, passes_iff hv]
    cases hc : c.bounds.consumed with
    | true =>
      obtain ⟨hnum, hord, _⟩ := Column.isNumeric_of_consumed hc
      rw [bounds, Column.contains_bounds_iff hs hn hc hr]
      simp only [Holds, Overreaches, hnum, hord, true_imp_iff, true_or, and_true, true_and,
        and_or_left, exists_or]
    | false =>
      have hnot : ¬ c.Overreaches row := by
        rintro ⟨hord, x, hx, ho⟩
        have hcons : c.bounds.consumed = true := Column.consumed_of_overreaches hord hx ho
        rw [hc] at hcons
        cases hcons
      rw [bounds, Column.contains_bounds_of_not_consumed hc hr]
      simp only [hnot, true_and, Bool.false_eq_true, false_or, and_false, or_false]

end Condition

/-! ## Filtering -/

theorem Column.filter_of_violation {c : Condition} {violation : ContractViolation}
    (h : c.violation? = some violation) (rows : Candidates) :
    c.column.filter c.op c.value rows = (rows, .refused violation) := by
  obtain ⟨hn, hl, rfl⟩ := Condition.violation?_eq_some h
  exact filter_refused hn hl

theorem Column.filter_of_no_violation {c : Condition} {rows : Candidates}
    (h : c.violation? = none) (hrows : ∀ row ∈ rows.toList, c.column.HasRow row) :
    ∃ kept, c.column.filter c.op c.value rows = (kept, .complete) ∧
      kept.toList = rows.toList.filter c.passes := by
  cases hn : c.column.isNumeric with
  | false =>
    refine ⟨rows, filter_of_not_isNumeric hn, ?_⟩
    exact (Condition.filter_passes_of_not_isNumeric hn _).symm
  | true =>
    have hl : c.value.isNumeric = true := Condition.violation?_eq_none_iff.mp h hn
    obtain ⟨kept, hfilter, _, hkept⟩ := exists_filter c.op hn hl hrows
    rw [Condition.passes_of_isNumeric hn]
    exact ⟨kept, hfilter, hkept⟩

namespace Filtering

variable {c : Condition} {rows : Candidates} (conditions : List Condition)

theorem ofConditions_of_violation {violation : ContractViolation}
    (h : c.violation? = some violation) :
    ofConditions (c :: conditions) rows = ⟨[], .error (.error (.contract violation))⟩ := by
  simp only [ofConditions, Column.filter_of_violation h]

theorem ofConditions_of_no_violation (h : c.violation? = none)
    (hrows : ∀ row ∈ rows.toList, c.column.HasRow row) :
    ∃ kept : Candidates, kept.toList = rows.toList.filter c.passes ∧
      ofConditions (c :: conditions) rows =
        ⟨(c, kept.count) :: (ofConditions conditions kept).applied,
          (ofConditions conditions kept).result⟩ := by
  obtain ⟨kept, hfilter, hkept⟩ := Column.filter_of_no_violation h hrows
  refine ⟨kept, hkept, ?_⟩
  simp only [ofConditions, hfilter]

variable {conditions}

theorem result_ofConditions (hrows : ∀ c ∈ conditions, ∀ row ∈ rows.toList, c.column.HasRow row) :
    (ofConditions conditions rows).result.map Candidates.toList =
      match conditions.findSome? Condition.violation? with
      | some violation => .error (.error (.contract violation))
      | none => .ok (rows.toList.filter fun row => conditions.all (·.passes row)) := by
  induction conditions generalizing rows with
  | nil => simp [ofConditions, Except.map]
  | cons c conditions ih =>
    cases hv : c.violation? with
    | some violation =>
      simp only [ofConditions_of_violation conditions hv, List.findSome?_cons, hv, Except.map]
    | none =>
      obtain ⟨kept, hkept, hcons⟩ :=
        ofConditions_of_no_violation conditions hv (hrows c List.mem_cons_self)
      -- The rows that are left still lie in the storage of the later columns.
      have hrest (d : Condition) (hd : d ∈ conditions) (row : Nat) (hrow : row ∈ kept.toList) :
          d.column.HasRow row :=
        hrows d (List.mem_cons_of_mem _ hd) row (List.mem_of_mem_filter (hkept ▸ hrow))
      rw [hcons, ih hrest, hkept, List.findSome?_cons, hv]
      simp only [List.filter_filter, List.all_cons, Bool.and_comm]

end Filtering

/-! ## Planning -/

theorem Bounds.contains_foldl_intersect {α : Type} {f : α → Bounds} {xs : List α} {b : Bounds}
    {row : Nat} :
    (xs.foldl (fun range x => range.intersect (f x)) b).contains row = true ↔
      b.contains row = true ∧ ∀ x ∈ xs, (f x).contains row = true := by
  induction xs generalizing b with
  | nil => simp only [List.foldl_nil, List.not_mem_nil, false_imp_iff, implies_true, and_true]
  | cons x xs ih =>
    rw [List.foldl_cons, ih, Bounds.contains_intersect_iff, and_assoc, List.forall_mem_cons]

namespace Plan

variable {config : Config} {n row : Nat} {conditions : List Condition}

theorem contains_range_iff :
    (ofConditions config n conditions).range.contains row = true ↔
      row < n ∧ (config.boundPruning = true → ∀ c ∈ conditions, c.bounds.contains row = true) := by
  unfold ofConditions
  split
  · rename_i h
    rw [Bounds.contains_foldl_intersect, Bounds.contains_iff]
    simp only [Bounds.full, Nat.zero_le, true_and, h, true_imp_iff]
  · rename_i h
    rw [Bounds.contains_iff]
    simp only [Bounds.full, Nat.zero_le, true_and, h, Bool.false_eq_true, false_imp_iff, and_true]

theorem mem_candidates_iff :
    row ∈ (ofConditions config n conditions).candidates.toList ↔
      (ofConditions config n conditions).range.contains row = true := by
  rw [candidates, Candidates.toList_ofRange, List.mem_range'_1, Bounds.contains_iff]
  omega

theorem length_candidates (p : Plan) : p.candidates.toList.length = p.range.length := by
  rw [candidates, Candidates.toList_ofRange, List.length_range']
  rfl

theorem pairwise_candidates (p : Plan) : p.candidates.toList.Pairwise (· < ·) := by
  rw [candidates, Candidates.toList_ofRange]
  exact List.pairwise_lt_range'

theorem length_range_le : (ofConditions config n conditions).range.length ≤ n := by
  rcases Nat.lt_or_ge (ofConditions config n conditions).range.lo
    (ofConditions config n conditions).range.hi with h | h
  · have hlast : (ofConditions config n conditions).range.contains
        ((ofConditions config n conditions).range.hi - 1) = true :=
      Bounds.contains_iff.mpr (by omega)
    have hlast := (contains_range_iff.mp hlast).1
    simp only [Bounds.length]
    omega
  · simp only [Bounds.length]
    omega

theorem lo_le_hi_range :
    (ofConditions config n conditions).range.lo ≤ (ofConditions config n conditions).range.hi := by
  unfold ofConditions
  split
  · exact List.foldlRecOn (motive := fun range : Bounds => range.lo ≤ range.hi) conditions _
      (Nat.zero_le n) fun range _ c _ => range.lo_le_hi_intersect c.bounds
  · exact Nat.zero_le n

theorem length_range_of_not_pruning (h : config.boundPruning = false) :
    (ofConditions config n conditions).range.length = n := by
  simp only [ofConditions, h, Bool.false_eq_true, if_false, Bounds.full, Bounds.length,
    Nat.sub_zero]

theorem consumed_add_length_residual :
    (ofConditions config n conditions).consumed +
      (ofConditions config n conditions).residual.length = conditions.length := by
  unfold ofConditions
  split
  · dsimp only
    rw [List.countP_eq_length_filter]
    exact (List.length_eq_length_filter_add _).symm
  · exact Nat.zero_add _

theorem mem_residual_iff {c : Condition} :
    c ∈ (ofConditions config n conditions).residual ↔
      c ∈ conditions ∧ (config.boundPruning = true → c.bounds.consumed = false) := by
  unfold ofConditions
  split
  · rename_i h
    simp only [List.mem_filter, Bool.not_eq_true', h, true_imp_iff]
  · rename_i h
    simp only [h, Bool.false_eq_true, false_imp_iff, and_true]

theorem hasRow_of_mem_candidates (h : ∀ c ∈ conditions, ∀ row < n, c.column.HasRow row)
    {c : Condition} (hc : c ∈ (ofConditions config n conditions).residual)
    (hrow : row ∈ (ofConditions config n conditions).candidates.toList) : c.column.HasRow row :=
  h c (mem_residual_iff.mp hc).1 row (contains_range_iff.mp (mem_candidates_iff.mp hrow)).1

/-- Constraints that bounds answer break no contract, so the first violation is left to a filter. -/
theorem findSome?_residual :
    (ofConditions config n conditions).residual.findSome? Condition.violation? =
      conditions.findSome? Condition.violation? := by
  unfold ofConditions
  split
  · dsimp only
    induction conditions with
    | nil => rfl
    | cons c conditions ih =>
      cases hc : c.bounds.consumed with
      | true =>
        rw [List.filter_cons_of_neg (by simp only [hc, Bool.not_true, Bool.false_eq_true,
          not_false_iff]), List.findSome?_cons, Condition.violation?_of_consumed hc]
        exact ih
      | false =>
        rw [List.filter_cons_of_pos (by simp only [hc, Bool.not_false]), List.findSome?_cons,
          List.findSome?_cons, ih]
  · rfl

end Plan

/-! ## Selection -/

namespace Prepared

variable {p : Prepared} {config : Config} {n : Nat}

/-- The rows that the options leave of a table of `n` rows, in ascending order. -/
def admitted (p : Prepared) (config : Config) (n : Nat) : List Nat :=
  (List.range n).filter fun row => p.conditions.all (·.admits config row)

theorem pairwise_admitted : (p.admitted config n).Pairwise (· < ·) :=
  List.pairwise_lt_range.filter _

theorem mem_admitted_iff {row : Nat} :
    row ∈ p.admitted config n ↔ row < n ∧ ∀ c ∈ p.conditions, c.admits config row = true := by
  rw [admitted, List.mem_filter, List.mem_range, List.all_eq_true]

theorem filter_candidates_eq_admitted :
    (Plan.ofConditions config n p.conditions).candidates.toList.filter
        (fun row => (Plan.ofConditions config n p.conditions).residual.all (·.passes row)) =
      p.admitted config n := by
  refine ((Plan.pairwise_candidates _).filter _).eq_of_mem_iff pairwise_admitted fun row => ?_
  rw [List.mem_filter, Plan.mem_candidates_iff, Plan.contains_range_iff, mem_admitted_iff,
    List.all_eq_true, and_assoc]
  refine and_congr_right fun _ => ?_
  simp only [Plan.mem_residual_iff, Condition.admits]
  cases config.boundPruning with
  | false => simp only [Bool.false_eq_true, false_imp_iff, true_and, and_true, if_false]
  | true =>
    simp only [true_imp_iff, if_true, Bool.and_eq_true, Bool.or_eq_true]
    constructor
    · rintro ⟨hbounds, hpass⟩ c hc
      cases hcons : c.bounds.consumed with
      | true => exact ⟨hbounds c hc, .inl rfl⟩
      | false => exact ⟨hbounds c hc, .inr (hpass c ⟨hc, hcons⟩)⟩
    · intro h
      refine ⟨fun c hc => (h c hc).1, fun c ⟨hc, hcons⟩ => ?_⟩
      exact (h c hc).2.resolve_left (by rw [hcons]; exact Bool.false_ne_true)

/--
The outcome of planning, filtering and sorting: the first violation in the order of the query, or
the admitted rows in the order of the keys.
-/
theorem rows_select (h : ∀ c ∈ p.conditions, ∀ row < n, c.column.HasRow row) :
    (p.select config n).rows =
      match p.conditions.findSome? Condition.violation? with
      | some violation => .error (.error (.contract violation))
      | none => arrangeRows config p.keys (p.admitted config n) := by
  have hrows (c : Condition) (hc : c ∈ (Plan.ofConditions config n p.conditions).residual)
      (row : Nat) (hrow : row ∈ (Plan.ofConditions config n p.conditions).candidates.toList) :
      c.column.HasRow row := Plan.hasRow_of_mem_candidates h hc hrow
  have hresult := Filtering.result_ofConditions hrows
  rw [Plan.findSome?_residual, filter_candidates_eq_admitted] at hresult
  have hbind {r : Except Stop Candidates} :
      (r.bind fun candidates => arrangeRows config p.keys candidates.toList) =
        (r.map Candidates.toList).bind (arrangeRows config p.keys) := by
    cases r <;> rfl
  simp only [select, hbind, hresult]
  split <;> rfl

end Prepared

end Columnar
