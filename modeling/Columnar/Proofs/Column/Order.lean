import Mathlib.Data.List.Chain
import Columnar.Column.Order
import Columnar.Proofs.Meaning
import Columnar.Proofs.Sorting

/-! # The order of sorted rows

The comparators of columns and their chains are total preorders. On the cells of one column they
agree with the meaning of an ORDER BY term, and sorting by a chain of them is stable, so it puts
ascending rows in the order of the terms with ties by row.
-/

namespace Columnar

/-! ## Comparators -/

namespace Binary64

/-- The key of a number, and for every NaN an integer above all keys. -/
def sortKey (x : Binary64) : Int := if x.isNaN then infinityWord + 1 else x.key

theorem sortCompare_eq (x y : Binary64) : x.sortCompare y = compare x.sortKey y.sortKey := by
  have above {x y : Binary64} (hx : x.isNaN = false) (hy : y.isNaN = true) :
      x.sortKey < y.sortKey := by
    have := key_bounds hx
    simp only [sortKey, hx, hy, Bool.false_eq_true, if_true, if_false]
    omega
  cases hx : x.isNaN <;> cases hy : y.isNaN
  · simp only [sortCompare, sortKey, hx, hy, Bool.false_eq_true, if_false]
  · simp only [sortCompare, hx, hy]
    exact (Int.compare_eq_lt.mpr (above hx hy)).symm
  · simp only [sortCompare, hx, hy]
    exact (Int.compare_eq_gt.mpr (above hy hx)).symm
  · simp only [sortCompare, sortKey, hx, hy, if_true, Std.ReflOrd.compare_self]

instance : Std.TransCmp sortCompare := by
  have h : sortCompare = compareOn sortKey := by
    funext x y
    exact sortCompare_eq x y
  rw [h]
  infer_instance

end Binary64

instance : Std.TransCmp Cell.sortCompare where
  eq_swap {a b} := by
    cases a <;> cases b <;> simp only [Cell.sortCompare]
    all_goals exact Std.OrientedCmp.eq_swap
  isLE_trans {a b c} hab hbc := by
    cases a <;> cases b <;> cases c <;> simp only [Cell.sortCompare] at *
    all_goals first | exact Std.TransCmp.isLE_trans hab hbc | contradiction | rfl

namespace SortKey

variable {k : SortKey}

def cellCompare (k : SortKey) (x y : Cell) : Ordering := k.directed (x.sortCompare y)

instance : Std.TransCmp k.cellCompare := by
  cases hd : k.descending with
  | false =>
    have h : k.cellCompare = Cell.sortCompare := by
      funext x y
      simp only [cellCompare, directed, hd, Bool.false_eq_true, if_false]
    rw [h]
    infer_instance
  | true =>
    have h : k.cellCompare = fun x y => y.sortCompare x := by
      funext x y
      simp only [cellCompare, directed, hd, if_true]
      exact Std.OrientedCmp.eq_swap.symm
    rw [h]
    infer_instance

instance : Std.TransCmp k.compare where
  eq_swap {a b} := by
    simp only [compare]
    cases k.column.cell? a <;> cases k.column.cell? b
    case some.some x y =>
      change k.cellCompare x y = (k.cellCompare y x).swap
      exact Std.OrientedCmp.eq_swap
    all_goals rfl
  isLE_trans {a b c} hab hbc := by
    simp only [compare] at *
    cases ha : k.column.cell? a <;> cases hb : k.column.cell? b <;> cases hc : k.column.cell? c <;>
      simp only [ha, hb, hc] at *
    case some.some.some x y z =>
      change (k.cellCompare x y).isLE = true at hab
      change (k.cellCompare y z).isLE = true at hbc
      change (k.cellCompare x z).isLE = true
      exact Std.TransCmp.isLE_trans hab hbc
    all_goals first | contradiction | rfl

theorem compare?_eq_some_iff {a b : Nat} {order : Ordering} :
    k.compare? a b = some order ↔
      ∃ x ∈ k.column.cell? a, ∃ y ∈ k.column.cell? b, k.cellCompare x y = order := by
  simp only [compare?, Option.bind_eq_bind, Option.bind_eq_some_iff, Option.pure_def,
    Option.some.injEq, Option.mem_def, cellCompare]

theorem compare_of_compare? {a b : Nat} {order : Ordering} (h : k.compare? a b = some order) :
    k.compare a b = order := by
  obtain ⟨x, hx, y, hy, rfl⟩ := compare?_eq_some_iff.mp h
  rw [Option.mem_def] at hx hy
  simp only [compare, hx, hy, cellCompare]

theorem isSome_compare?_trans {a b c : Nat} (hab : (k.compare? a b).isSome = true)
    (hbc : (k.compare? b c).isSome = true) : k.compare? a c = some (k.compare a c) := by
  obtain ⟨p, hp⟩ := Option.isSome_iff_exists.mp hab
  obtain ⟨q, hq⟩ := Option.isSome_iff_exists.mp hbc
  obtain ⟨x, hx, _, _, _⟩ := compare?_eq_some_iff.mp hp
  obtain ⟨_, _, z, hz, _⟩ := compare?_eq_some_iff.mp hq
  have h : k.compare? a c = some (k.cellCompare x z) := compare?_eq_some_iff.mpr ⟨x, hx, z, hz, rfl⟩
  rw [compare_of_compare? h, h]

theorem eq_of_compare_eq {a b c : Nat} {p q : Ordering} (hp : k.compare? a b = some p)
    (hq : k.compare? b c = some q) (hle : p.isLE = true) (hle' : q.isLE = true)
    (h : k.compare a c = .eq) : p = .eq ∧ q = .eq := by
  obtain rfl := compare_of_compare? hp
  obtain rfl := compare_of_compare? hq
  constructor
  · rcases Ordering.isLE_iff_eq_lt_or_eq_eq.mp hle with hlt | heq
    · rw [Std.TransCmp.lt_of_lt_of_isLE hlt hle'] at h
      cases h
    · exact heq
  · rcases Ordering.isLE_iff_eq_lt_or_eq_eq.mp hle' with hlt | heq
    · rw [Std.TransCmp.lt_of_isLE_of_lt hle hlt] at h
      cases h
    · exact heq

end SortKey

namespace RowOrder

variable {keys : List SortKey} {rows : List Nat} {a b c : Nat}

instance : Std.TransCmp (compare keys) := by
  induction keys with
  | nil => exact { eq_swap := rfl, isLE_trans := fun _ _ => rfl }
  | cons k keys ih =>
    have h : compare (k :: keys) = compareLex k.compare (compare keys) := rfl
    rw [h]
    infer_instance

theorem compare_of_compare? {order : Ordering} (h : compare? keys a b = some order) :
    compare keys a b = order := by
  induction keys with
  | nil => exact Option.some.inj h
  | cons k keys ih =>
    rw [compare?] at h
    cases hk : k.compare? a b with
    | none => rw [hk] at h; cases h
    | some first =>
      rw [hk] at h
      rw [compare, SortKey.compare_of_compare? hk]
      cases first with
      | eq => exact ih h
      | lt => exact Option.some.inj h
      | gt => exact Option.some.inj h

theorem compare?_trans (hab : (compare? keys a b).isSome = true)
    (hle : (compare keys a b).isLE = true) (hbc : (compare? keys b c).isSome = true)
    (hle' : (compare keys b c).isLE = true) :
    compare? keys a c = some (compare keys a c) := by
  induction keys with
  | nil => rfl
  | cons k keys ih =>
    simp only [compare?] at hab hbc
    cases hp : k.compare? a b with
    | none => rw [hp] at hab; cases hab
    | some p =>
      cases hq : k.compare? b c with
      | none => rw [hq] at hbc; cases hbc
      | some q =>
        have hac : k.compare? a c = some (k.compare a c) :=
          SortKey.isSome_compare?_trans (by rw [hp]; rfl) (by rw [hq]; rfl)
        rw [compare?, hac, compare]
        rw [hp] at hab
        rw [hq] at hbc
        rw [compare, SortKey.compare_of_compare? hp] at hle
        rw [compare, SortKey.compare_of_compare? hq] at hle'
        cases hr : k.compare a c with
        | lt => rfl
        | gt => rfl
        | eq =>
          obtain ⟨rfl, rfl⟩ := SortKey.eq_of_compare_eq hp hq (Ordering.isLE_left_of_isLE_then hle)
            (Ordering.isLE_left_of_isLE_then hle') hr
          exact ih hab hle hbc hle'

/-- The order of two rows by the keys and then by row, as long as all cells that are read exist. -/
def Precedes (keys : List SortKey) (a b : Nat) : Prop :=
  compare? keys a b = some .lt ∨ compare? keys a b = some .eq ∧ a < b

instance : Trans (Precedes keys) (Precedes keys) (Precedes keys) where
  trans {a b c} hab hbc := by
    have spec {a b : Nat} (h : Precedes keys a b) : (compare? keys a b).isSome = true ∧
        (compare keys a b = .lt ∨ compare keys a b = .eq ∧ a < b) := by
      rcases h with h | ⟨h, hlt⟩
      · exact ⟨by rw [h]; rfl, .inl (compare_of_compare? h)⟩
      · exact ⟨by rw [h]; rfl, .inr ⟨compare_of_compare? h, hlt⟩⟩
    obtain ⟨hab, hab'⟩ := spec hab
    obtain ⟨hbc, hbc'⟩ := spec hbc
    have hle : (compare keys a b).isLE = true := by
      rcases hab' with h | ⟨h, _⟩ <;> rw [h] <;> rfl
    have hle' : (compare keys b c).isLE = true := by
      rcases hbc' with h | ⟨h, _⟩ <;> rw [h] <;> rfl
    rw [Precedes, compare?_trans hab hle hbc hle']
    rcases hab' with h | ⟨h, hlt⟩
    · exact .inl (congrArg some (Std.TransCmp.lt_of_lt_of_isLE h hle'))
    · rcases hbc' with h' | ⟨h', hlt'⟩
      · exact .inl (congrArg some (Std.TransCmp.lt_of_eq_of_lt h h'))
      · exact .inr ⟨congrArg some (Std.TransCmp.eq_trans h h'), Nat.lt_trans hlt hlt'⟩

/-! ## Sorting -/

theorem perm_arrange : (arrange keys rows).Perm rows := List.mergeSort_perm _ _

theorem pairwise_arrange : (arrange keys rows).Pairwise fun a b => (compare keys a b).isLE = true :=
  pairwise_mergeSort_isLE _ rows

theorem filter_arrange : (arrange keys rows).filter (compare keys a · == .eq) =
    rows.filter (compare keys a · == .eq) :=
  filter_mergeSort_isLE _ rows a

theorem pairwise_tied {r : Nat → Nat → Prop} (h : rows.Pairwise r) :
    (arrange keys rows).Pairwise fun a b => compare keys a b = .eq → r a b := by
  rw [List.pairwise_iff_forall_sublist]
  intro a b hab heq
  have hself : compare keys a a = .eq := Std.ReflCmp.compare_self
  have hpair := hab.filter (compare keys a · == .eq)
  rw [filter_arrange] at hpair
  simp only [List.filter_cons, hself, heq, beq_self_eq_true, if_true, List.filter_nil] at hpair
  exact List.pairwise_iff_forall_sublist.mp (h.filter _) hpair

theorem isChain_of_comparable {r : Nat → Nat → Prop} (hc : comparable keys rows = true)
    (h : rows.Pairwise r) :
    rows.IsChain fun a b => compare? keys a b = some (compare keys a b) ∧ r a b := by
  induction rows with
  | nil => exact .nil
  | cons a rows ih =>
    cases rows with
    | nil => exact .singleton a
    | cons b rows =>
      obtain ⟨hab, hrest⟩ := Bool.and_eq_true_iff.mp hc
      refine .cons_cons ⟨?_, List.rel_of_pairwise_cons h List.mem_cons_self⟩ (ih hrest h.tail)
      obtain ⟨order, horder⟩ := Option.isSome_iff_exists.mp hab
      rw [horder, compare_of_compare? horder]

theorem sort?_eq_some_iff {sorted : List Nat} :
    sort? keys rows = some sorted ↔ sorted = arrange keys rows ∧ comparable keys sorted = true := by
  rw [sort?]
  split
  · rename_i hc
    rw [Option.some.injEq]
    constructor
    · rintro rfl
      exact ⟨rfl, hc⟩
    · exact fun h => h.1.symm
  · rename_i hc
    refine iff_of_false nofun ?_
    rintro ⟨rfl, h⟩
    exact hc h

theorem sort?_eq_insertionSort (keys : List SortKey) (rows : List Nat) : sort? keys rows =
    let sorted := rows.insertionSort fun a b => (compare keys a b).isLE = true
    if comparable keys sorted then some sorted else none := by
  rw [sort?, arrange, mergeSort_isLE_eq_insertionSort]

/-- Sorting ascending rows puts them in the order of the keys, with ties by row. -/
theorem pairwise_sort? {sorted : List Nat} (h : sort? keys rows = some sorted)
    (hrows : rows.Pairwise (· < ·)) : sorted.Pairwise (Precedes keys) := by
  obtain ⟨rfl, hc⟩ := sort?_eq_some_iff.mp h
  rw [← List.isChain_iff_pairwise]
  refine (isChain_of_comparable hc (pairwise_arrange.and (pairwise_tied hrows))).imp ?_
  rintro a b ⟨horder, hle, htied⟩
  rcases Ordering.isLE_iff_eq_lt_or_eq_eq.mp hle with hlt | heq
  · exact .inl (horder.trans (congrArg some hlt))
  · exact .inr ⟨horder.trans (congrArg some heq), htied heq⟩

theorem isSome_compare? (h : ∀ k ∈ keys, ∀ row ∈ rows, ∃ x, k.column.cell? row = some x)
    {a b : Nat} (ha : a ∈ rows) (hb : b ∈ rows) : (compare? keys a b).isSome = true := by
  induction keys with
  | nil => rfl
  | cons k keys ih =>
    obtain ⟨x, hx⟩ := h k List.mem_cons_self a ha
    obtain ⟨y, hy⟩ := h k List.mem_cons_self b hb
    have hk : k.compare? a b = some (k.cellCompare x y) :=
      SortKey.compare?_eq_some_iff.mpr ⟨x, hx, y, hy, rfl⟩
    rw [compare?, hk]
    cases k.cellCompare x y with
    | eq => exact ih fun k hk => h k (List.mem_cons_of_mem _ hk)
    | lt => rfl
    | gt => rfl

theorem comparable_of_isChain (h : rows.IsChain fun a b => (compare? keys a b).isSome = true) :
    comparable keys rows = true := by
  induction h with
  | nil => rfl
  | singleton => rfl
  | cons_cons hab _ ih => exact Bool.and_eq_true_iff.mpr ⟨hab, ih⟩

theorem sort?_eq_some (h : ∀ k ∈ keys, ∀ row ∈ rows, ∃ x, k.column.cell? row = some x) :
    sort? keys rows = some (arrange keys rows) := by
  refine if_pos (comparable_of_isChain (List.Pairwise.isChain ?_))
  refine List.pairwise_of_forall_mem_list fun a ha b hb => ?_
  exact isSome_compare? h (perm_arrange.mem_iff.mp ha) (perm_arrange.mem_iff.mp hb)

theorem perm_sort? {sorted : List Nat} (h : sort? keys rows = some sorted) : sorted.Perm rows := by
  obtain ⟨rfl, -⟩ := sort?_eq_some_iff.mp h
  exact perm_arrange

end RowOrder

/-! ## Cells of one column -/

namespace Cell

variable {x y : Cell}

theorem sortCompare_eq_lt_iff (h : x.rank = y.rank) : x.sortCompare y = .lt ↔ x.Before y := by
  cases x <;> cases y <;> cases h
  case integer.refl a b =>
    rw [sortCompare, Int.compare_eq_lt]
    refine ⟨.integer, ?_⟩
    rintro (h | _ | _ | _)
    exact h
  case float.refl a b =>
    cases ha : a.isNaN <;> cases hb : b.isNaN <;>
      simp only [sortCompare, Binary64.sortCompare, ha, hb]
    · rw [Int.compare_eq_lt]
      refine ⟨.number ha hb, ?_⟩
      rintro (_ | ⟨_, _, h⟩ | ⟨_, h⟩ | _)
      · exact h
      · rw [h] at hb
        cases hb
    · exact iff_of_true trivial (.nan ha hb)
    all_goals
      refine iff_of_false (by simp only [reduceCtorEq, not_false_iff]) ?_
      rintro (_ | ⟨h, _, _⟩ | ⟨h, _⟩ | _) <;>
        · rw [h] at ha
          cases ha
  case text.refl a b =>
    rw [sortCompare, Text.compare, Text.compare_bytes_eq_lt_iff]
    refine ⟨.text, ?_⟩
    rintro (_ | _ | _ | h)
    exact h

end Cell

namespace Column

variable {c : Column} {a b : Nat} {x y : Cell}

def rank : Column → Nat
  | numeric _ (.integer _) .. | endTime .. | rowId .. => 0
  | numeric _ .double .. => 1
  | text .. => 2

theorem rank_of_cell? (h : c.cell? a = some x) : x.rank = c.rank := by
  have h := cell?_cases h
  cases c with
  | numeric name type values =>
    obtain ⟨v, _, rfl⟩ := h
    cases type <;> rfl
  | text =>
    obtain ⟨s, rfl⟩ := h
    rfl
  | endTime =>
    obtain ⟨i, rfl⟩ := h
    rfl
  | rowId =>
    obtain ⟨i, rfl⟩ := h
    rfl

theorem rank_eq (hx : c.cell? a = some x) (hy : c.cell? b = some y) : x.rank = y.rank := by
  rw [rank_of_cell? hx, rank_of_cell? hy]

section Numeric

variable {name : String} {type : ElementType} {values : Array type.Elem} {hidden ordered : Bool}

theorem ascending_numeric_iff : (numeric name type values hidden ordered).Ascending ↔
    values.toList.Pairwise fun v w => (type.cell v).sortCompare (type.cell w) ≠ .gt := by
  have hgt (v w : type.Elem) : (type.cell v).sortCompare (type.cell w) = .gt ↔
      (type.cell w).Before (type.cell v) := by
    rw [Std.OrientedCmp.gt_iff_lt, Cell.sortCompare_eq_lt_iff]
    cases type <;> rfl
  rw [List.pairwise_iff_getElem]
  constructor
  · intro h i j hi hj hij hvw
    exact h i j _ _ hij (cell?_numeric_of_lt hi) (cell?_numeric_of_lt hj) ((hgt _ _).mp hvw)
  · intro h i j x y hij hx hy hyx
    obtain ⟨v, hv, rfl⟩ := cell?_cases hx
    obtain ⟨w, hw, rfl⟩ := cell?_cases hy
    obtain ⟨hi, rfl⟩ := Array.getElem?_eq_some_iff.mp hv
    obtain ⟨hj, rfl⟩ := Array.getElem?_eq_some_iff.mp hw
    exact h i j hi hj hij ((hgt _ _).mpr hyx)

theorem all_numeric_iff {p : Cell → Bool} : (numeric name type values hidden ordered).All p ↔
    ∀ v ∈ values.toList, p (type.cell v) = true := by
  constructor
  · intro h v hv
    obtain ⟨i, hi, rfl⟩ := List.getElem_of_mem hv
    exact h i _ (cell?_numeric_of_lt hi)
  · intro h i x hx
    obtain ⟨v, hv, rfl⟩ := cell?_cases hx
    exact h v (Array.mem_toList_iff.mpr (Array.mem_of_getElem? hv))

end Numeric

end Column

/-! ## Terms -/

/-- Whether the key sorts by the column and in the direction of the term. -/
def Schema.IsKey (s : Schema) (t : OrderTerm) (k : SortKey) : Prop :=
  s.columns[t.column]? = some k.column ∧ t.descending = k.descending

namespace Schema.IsKey

variable {s : Schema} {t : OrderTerm} {k : SortKey} {x y : Cell}

theorem cellCompare_eq_lt_iff (h : s.IsKey t k) (hr : x.rank = y.rank) :
    k.cellCompare x y = .lt ↔ t.Puts x y := by
  rw [SortKey.cellCompare, SortKey.directed, OrderTerm.Puts, h.2]
  split
  · rw [← Cell.sortCompare_eq_lt_iff hr.symm, ← Std.OrientedCmp.eq_swap]
  · exact Cell.sortCompare_eq_lt_iff hr

theorem cellCompare_eq_eq_iff (h : s.IsKey t k) (hr : x.rank = y.rank) :
    k.cellCompare x y = .eq ↔ ¬ t.Puts x y ∧ ¬ t.Puts y x := by
  rw [← h.cellCompare_eq_lt_iff hr, ← h.cellCompare_eq_lt_iff hr.symm]
  have hswap : k.cellCompare y x = (k.cellCompare x y).swap := Std.OrientedCmp.eq_swap
  rw [hswap]
  cases k.cellCompare x y <;> simp

end Schema.IsKey

theorem RowOrder.precedes_cons_iff {k : SortKey} {keys : List SortKey} {a b : Nat} :
    Precedes (k :: keys) a b ↔
      k.compare? a b = some .lt ∨ k.compare? a b = some .eq ∧ Precedes keys a b := by
  simp only [Precedes, compare?]
  cases k.compare? a b with
  | none => simp
  | some order => cases order <;> simp

theorem Schema.precedes_iff {s : Schema} {terms : List OrderTerm} {keys : List SortKey}
    (h : List.Forall₂ s.IsKey terms keys) {a b : Nat} :
    s.Precedes terms a b ↔ RowOrder.Precedes keys a b := by
  induction h with
  | nil => simp [Schema.Precedes, RowOrder.Precedes, RowOrder.compare?]
  | @cons t k terms keys hk _ ih =>
    rw [RowOrder.precedes_cons_iff, SortKey.compare?_eq_some_iff, SortKey.compare?_eq_some_iff,
      Schema.Precedes, hk.1, ih]
    simp only [Option.mem_def, Option.some.injEq, exists_eq_left']
    constructor
    · rintro ⟨x, hx, y, hy, hput⟩
      have hr := Column.rank_eq hx hy
      rcases hput with hput | ⟨hnot, hrest⟩
      · exact .inl ⟨x, hx, y, hy, (hk.cellCompare_eq_lt_iff hr).mpr hput⟩
      · by_cases hput : t.Puts x y
        · exact .inl ⟨x, hx, y, hy, (hk.cellCompare_eq_lt_iff hr).mpr hput⟩
        · exact .inr ⟨⟨x, hx, y, hy, (hk.cellCompare_eq_eq_iff hr).mpr ⟨hput, hnot⟩⟩, hrest⟩
    · rintro (⟨x, hx, y, hy, hlt⟩ | ⟨⟨x, hx, y, hy, heq⟩, hrest⟩)
      · exact ⟨x, hx, y, hy, .inl ((hk.cellCompare_eq_lt_iff (Column.rank_eq hx hy)).mp hlt)⟩
      · have hnot := ((hk.cellCompare_eq_eq_iff (Column.rank_eq hx hy)).mp heq).2
        exact ⟨x, hx, y, hy, .inr ⟨hnot, hrest⟩⟩

end Columnar
