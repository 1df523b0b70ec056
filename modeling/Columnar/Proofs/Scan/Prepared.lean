import Mathlib.Data.List.Forall2
import Columnar.Proofs.Column.Bounds
import Columnar.Proofs.Column.Order
import Columnar.Proofs.Scan.Selection

/-! # Prepared queries and rejections

A query without unknown columns is prepared by looking up each of its columns. Why a query is
rejected is read off the query and the kinds of the columns, and it is what a scan finds.
-/

namespace Columnar

namespace Schema

variable {s : Schema}

/-! ## Rows of the table -/

theorem rowCount_le {c : Column} (hc : c ∈ s.columns) {n : Nat} (hn : c.rowCount? = some n) :
    s.rowCount ≤ n := by
  rw [rowCount]
  cases hm : ((s.fixedRowCount.map UInt32.toNat).toList ++
    s.columns.filterMap Column.rowCount?).min? with
  | none => exact Nat.zero_le _
  | some m =>
    have hmem : n ∈ (s.fixedRowCount.map UInt32.toNat).toList ++
        s.columns.filterMap Column.rowCount? :=
      List.mem_append_right _ (List.mem_filterMap.mpr ⟨c, hc, hn⟩)
    exact (List.min?_eq_some_iff.mp hm).2 n hmem

theorem rowCount_le_rowLimit : s.rowCount ≤ rowLimit := by
  rw [rowCount]
  cases hm : ((s.fixedRowCount.map UInt32.toNat).toList ++
    s.columns.filterMap Column.rowCount?).min? with
  | none => exact Nat.zero_le _
  | some m =>
    rcases List.mem_append.mp (List.min?_mem hm) with h | h
    · obtain ⟨count, _, rfl⟩ := Option.map_eq_some_iff.mp (Option.mem_toList.mp h)
      have := count.toNat_lt
      simp only [Option.getD_some, rowLimit]
      omega
    · obtain ⟨c, _, hc⟩ := List.mem_filterMap.mp h
      cases c <;> simp only [Column.rowCount?, Option.some.injEq, reduceCtorEq, rowLength] at hc <;>
        simp only [Option.getD_some] <;> omega

theorem hasRow {c : Column} (hc : c ∈ s.columns) {row : Nat} (h : row < s.rowCount) :
    c.HasRow row :=
  ⟨Nat.lt_of_lt_of_le h rowCount_le_rowLimit, fun _ hn => Nat.lt_of_lt_of_le h (rowCount_le hc hn)⟩

/-! ## Looking up columns -/

theorem columns_of_lt {position : Nat} (h : position < s.width) :
    ∃ c ∈ s.columns, s.columns[position]? = some c :=
  ⟨s.columns[position], List.getElem_mem h, List.getElem?_eq_getElem h⟩

theorem columnOr_of_lt {error : Nat → Nat → ScanError} {position : Nat} {c : Column}
    (h : s.columns[position]? = some c) : s.columnOr error position = .ok c := by
  rw [columnOr, h]

theorem columnOr_of_le {error : Nat → Nat → ScanError} {position : Nat} (h : s.width ≤ position) :
    s.columnOr error position = .error (error position s.width) := by
  rw [columnOr, List.getElem?_eq_none h]

theorem mapM_columnOr {α β : Type} (error : Nat → Nat → ScanError) (position : α → Nat)
    (result : α → Column → β) (xs : List α) :
    (xs.mapM fun x => result x <$> s.columnOr error (position x)) =
      match xs.find? (decide <| s.width ≤ position ·) with
      | some x => .error (error (position x) s.width)
      | none => .ok (xs.filterMap fun x => s.columns[position x]?.map (result x)) := by
  induction xs with
  | nil => rfl
  | cons x xs ih =>
    rw [List.mapM_cons, List.find?_cons]
    rcases Nat.lt_or_ge (position x) s.width with h | h
    · obtain ⟨c, _, hc⟩ := columns_of_lt h
      rw [columnOr_of_lt hc, decide_eq_false (Nat.not_le.mpr h), ih]
      cases hf : xs.find? (decide <| s.width ≤ position ·) with
      | none => simp [hc]; rfl
      | some y => simp; rfl
    · rw [columnOr_of_le h, decide_eq_true h]
      rfl

/-- The query with the columns that it names, leaving out those that are unknown. -/
def resolve (s : Schema) (q : Query) : Prepared where
  conditions := q.constraints.filterMap fun c => s.columns[c.column]?.map (⟨·, c.op, c.value⟩)
  keys := q.order.filterMap fun t => s.columns[t.column]?.map (⟨·, t.descending⟩)
  outputs := if q.columns.isEmpty then s.columns else q.columns.filterMap (s.columns[·]?)

end Schema

/-! ## Rejections -/

/-- What decides whether a column refuses a constraint. -/
structure Column.Kind where
  name : String
  numeric : Bool

/-- The kinds of the columns, which do not depend on what is stored. -/
def Schema.kinds (s : Schema) : List Column.Kind := s.columns.map fun c => ⟨c.name, c.isNumeric⟩

namespace Query

variable (q : Query)

/-- The first unknown column of a query on a table of `width` columns. -/
def unknownColumn? (width : Nat) : Option ScanError :=
  ((q.constraints.find? (decide <| width ≤ ·.column)).map
      (.unknownConstraintColumn ·.column width)).or <|
    ((q.order.find? (decide <| width ≤ ·.column)).map (.unknownSortColumn ·.column width)).or <|
      (q.columns.find? (decide <| width ≤ ·)).map (.unknownOutputColumn · width)

/-- The first constraint that compares a number column with a text or a null. -/
def violation? (kinds : List Column.Kind) : Option ContractViolation :=
  q.constraints.findSome? fun c => kinds[c.column]?.bind fun kind =>
    if kind.numeric && !c.value.isNumeric then some ⟨kind.name, c.value.kind⟩ else none

/-- Why a query is rejected by a table whose columns are of the given kinds. -/
def rejection? (kinds : List Column.Kind) : Option ScanError :=
  (q.unknownColumn? kinds.length).or ((q.violation? kinds).map .contract)

end Query

namespace Schema

variable {s : Schema} {q : Query}

theorem length_kinds : s.kinds.length = s.width := List.length_map _

theorem rejection?_eq_none_iff : q.rejection? s.kinds = none ↔
    q.unknownColumn? s.width = none ∧ q.violation? s.kinds = none := by
  rw [Query.rejection?, length_kinds, Option.or_eq_none_iff, Option.map_eq_none_iff]

theorem rejection?_eq_some_iff {error : ScanError} : q.rejection? s.kinds = some error ↔
    q.unknownColumn? s.width = some error ∨ q.unknownColumn? s.width = none ∧
      ∃ violation, q.violation? s.kinds = some violation ∧ .contract violation = error := by
  rw [Query.rejection?, length_kinds, Option.or_eq_some_iff, Option.map_eq_some_iff]

theorem prepare_eq : s.prepare q =
    match q.unknownColumn? s.width with
    | some error => .error error
    | none => .ok (s.resolve q) := by
  have hconditions := s.mapM_columnOr .unknownConstraintColumn Constraint.column
    (fun c x => (⟨x, c.op, c.value⟩ : Condition)) q.constraints
  have hkeys := s.mapM_columnOr .unknownSortColumn OrderTerm.column
    (fun t x => (⟨x, t.descending⟩ : SortKey)) q.order
  have houtputs := s.mapM_columnOr .unknownOutputColumn id (fun _ x => x) q.columns
  simp only [id_eq, id_map', Option.map_id'] at houtputs
  simp only [← bind_pure_comp] at hconditions hkeys
  rw [prepare, hconditions, hkeys, houtputs, Query.unknownColumn?, resolve]
  cases q.constraints.find? (decide <| s.width ≤ ·.column) with
  | some c => rfl
  | none =>
    cases q.order.find? (decide <| s.width ≤ ·.column) with
    | some t => rfl
    | none =>
      cases q.columns with
      | nil => rfl
      | cons column columns =>
        cases (column :: columns).find? (decide <| s.width ≤ ·) <;> rfl

theorem forall_conditions_iff {p : Condition → Prop} : (∀ c ∈ (s.resolve q).conditions, p c) ↔
    ∀ c ∈ q.constraints, ∀ column ∈ s.columns[c.column]?, p ⟨column, c.op, c.value⟩ := by
  simp only [resolve, List.mem_filterMap, Option.map_eq_some_iff, Option.mem_def]
  constructor
  · intro h c hc column hcolumn
    exact h _ ⟨c, hc, column, hcolumn, rfl⟩
  · rintro h _ ⟨c, hc, column, hcolumn, rfl⟩
    exact h c hc column hcolumn

theorem column_mem_of_mem_conditions {c : Condition} (h : c ∈ (s.resolve q).conditions) :
    c.column ∈ s.columns := by
  have hall : ∀ c ∈ (s.resolve q).conditions, c.column ∈ s.columns :=
    forall_conditions_iff.mpr fun _ _ _ hcolumn => List.mem_of_getElem? hcolumn
  exact hall c h

theorem column_mem_of_mem_keys {k : SortKey} (h : k ∈ (s.resolve q).keys) :
    k.column ∈ s.columns := by
  obtain ⟨t, _, ht⟩ := List.mem_filterMap.mp h
  obtain ⟨column, hcolumn, rfl⟩ := Option.map_eq_some_iff.mp ht
  exact List.mem_of_getElem? hcolumn

theorem mem_of_mem_outputs {c : Column} (h : c ∈ (s.resolve q).outputs) : c ∈ s.columns := by
  simp only [resolve] at h
  split at h
  · exact h
  · obtain ⟨position, _, hc⟩ := List.mem_filterMap.mp h
    exact List.mem_of_getElem? hc

/-- Whether bounds take an infinity at a row for the literal of a constraint. -/
def OverreachedAt (s : Schema) (c : Constraint) (row : Nat) : Prop :=
  ∃ column ∈ s.columns[c.column]?, Condition.Overreaches ⟨column, c.op, c.value⟩ row

theorem findSome?_conditions :
    (s.resolve q).conditions.findSome? Condition.violation? = q.violation? s.kinds := by
  simp only [resolve, Query.violation?]
  induction q.constraints with
  | nil => rfl
  | cons c constraints ih =>
    rw [List.filterMap_cons, List.findSome?_cons, kinds, List.getElem?_map]
    cases s.columns[c.column]? with
    | none => exact ih
    | some column =>
      dsimp only [Option.map_some, Option.bind_some]
      rw [List.findSome?_cons, ih]
      rfl

theorem forall₂_isKey (h : q.unknownColumn? s.width = none) :
    List.Forall₂ s.IsKey q.order (s.resolve q).keys := by
  have hknown : ∀ t ∈ q.order, t.column < s.width := by
    simp only [Query.unknownColumn?, Option.or_eq_none_iff, Option.map_eq_none_iff,
      List.find?_eq_none, decide_eq_true_eq, Nat.not_le] at h
    exact h.2.1
  simp only [resolve]
  revert hknown
  induction q.order with
  | nil => exact fun _ => .nil
  | cons t terms ih =>
    intro hknown
    obtain ⟨c, _, hc⟩ := columns_of_lt (hknown t List.mem_cons_self)
    rw [List.filterMap_cons_some (by rw [hc]; rfl)]
    exact .cons ⟨hc, rfl⟩ (ih fun t ht => hknown t (List.mem_cons_of_mem _ ht))

end Schema

end Columnar
