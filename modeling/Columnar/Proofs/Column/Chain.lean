import Columnar.Proofs.Column.Order

/-! # Chains of keys

On the rows that its columns cover, a chain of keys is a total preorder, and turning every key
around turns the order around. Sorting by a chain comes to the same as sorting by one key after
another, the last one first, because each of these sorts is stable.
-/

namespace Columnar

/-! ## Covered rows -/

namespace Column

/-- Whether a row lies in the data of a column, and its string in the table of strings. -/
def Covers : Column → Nat → Prop
  | numeric _ _ values _ _, row => row < values.size
  | text _ ids strings _, row => ∃ id ∈ ids[row]?, id < strings.size
  | endTime _ starts durations, row => row < starts.size ∧ row < durations.size
  | rowId .., _ => True

instance : (c : Column) → (row : Nat) → Decidable (c.Covers row)
  | numeric _ _ values _ _, row => inferInstanceAs (Decidable (row < values.size))
  | text _ ids strings _, row => inferInstanceAs (Decidable (∃ id ∈ ids[row]?, id < strings.size))
  | endTime _ starts durations, row =>
    inferInstanceAs (Decidable (row < starts.size ∧ row < durations.size))
  | rowId .., _ => inferInstanceAs (Decidable True)

theorem exists_cell?_iff {c : Column} {row : Nat} :
    (∃ x, c.cell? row = some x) ↔ c.Covers row := by
  cases c with
  | numeric name type values hidden ordered =>
    simp only [cell?, Covers, Option.map_eq_some_iff, Array.getElem?_eq_some_iff]
    constructor
    · rintro ⟨x, v, ⟨hlt, -⟩, -⟩
      exact hlt
    · exact fun hlt => ⟨_, _, ⟨hlt, rfl⟩, rfl⟩
  | text => simp [cell?, Covers, Option.bind_eq_some_iff, Array.getElem?_eq_some_iff]
  | endTime => simp [cell?, Covers, Option.bind_eq_some_iff, Array.getElem?_eq_some_iff]
  | rowId => simp [cell?, Covers]

end Column

namespace SortKey

/-- The key with the other direction. -/
def opposite (k : SortKey) : SortKey := { k with descending := !k.descending }

theorem directed_opposite (k : SortKey) (order : Ordering) :
    k.opposite.directed order = (k.directed order).swap := by
  cases hd : k.descending <;> simp [directed, opposite, hd]

theorem compare?_opposite (k : SortKey) (a b : Nat) :
    k.opposite.compare? a b = (k.compare? a b).map Ordering.swap := by
  change (k.column.cell? a).bind _ = ((k.column.cell? a).bind _).map _
  cases k.column.cell? a with
  | none => rfl
  | some x =>
    change (k.column.cell? b).bind _ = ((k.column.cell? b).bind _).map _
    cases k.column.cell? b with
    | none => rfl
    | some y => exact congrArg some (k.directed_opposite _)

end SortKey

namespace RowOrder

variable {k : SortKey} {keys : List SortKey} {rows mid sorted : List Nat} {a b c : Nat}

def Covers (keys : List SortKey) (row : Nat) : Prop := ∀ k ∈ keys, k.column.Covers row

instance (keys : List SortKey) (row : Nat) : Decidable (Covers keys row) :=
  inferInstanceAs (Decidable (∀ k ∈ keys, k.column.Covers row))

theorem exists_cells (h : ∀ row ∈ rows, Covers keys row) :
    ∀ k ∈ keys, ∀ row ∈ rows, ∃ x, k.column.cell? row = some x :=
  fun k hk row hrow => Column.exists_cell?_iff.mpr (h row hrow k hk)

/-! ## The order of a chain -/

theorem compare?_eq_some (ha : Covers keys a) (hb : Covers keys b) :
    compare? keys a b = some (compare keys a b) := by
  have hrows : ∀ row ∈ [a, b], Covers keys row := by
    intro row hrow
    rcases List.mem_pair.mp hrow with rfl | rfl
    · exact ha
    · exact hb
  have hsome : (compare? keys a b).isSome = true :=
    isSome_compare? (exists_cells hrows) List.mem_cons_self
      (List.mem_cons_of_mem _ List.mem_cons_self)
  obtain ⟨order, h⟩ := Option.isSome_iff_exists.mp hsome
  rw [h, compare_of_compare? h]

theorem compare?_opposite (keys : List SortKey) (a b : Nat) :
    compare? (keys.map .opposite) a b = (compare? keys a b).map Ordering.swap := by
  induction keys with
  | nil => rfl
  | cons k keys ih =>
    simp only [List.map_cons, compare?, k.compare?_opposite]
    rcases k.compare? a b with _ | _ | _ | _
    · rfl
    · rfl
    · exact ih
    · rfl

/--
A chain of keys compares any rows that it covers, and is a total preorder on them. With all
directions turned around it gives the reverse order.
-/
theorem exists_orders (ha : Covers keys a) (hb : Covers keys b) (hc : Covers keys c) :
    ∃ ab bc ac, compare? keys a b = some ab ∧ compare? keys b c = some bc ∧
      compare? keys a c = some ac ∧
      compare? keys a a = some .eq ∧ compare? keys b a = some ab.swap ∧
      (ab ≠ .gt → bc ≠ .gt → ac ≠ .gt ∧ (ab = .lt ∨ bc = .lt → ac = .lt)) ∧
      compare? (keys.map .opposite) a b = some ab.swap := by
  refine ⟨_, _, _, compare?_eq_some ha hb, compare?_eq_some hb hc, compare?_eq_some ha hc,
    ?_, ?_, fun hab hbc => ?_, ?_⟩
  · rw [compare?_eq_some ha ha]
    exact congrArg some Std.ReflCmp.compare_self
  · rw [compare?_eq_some hb ha]
    exact congrArg some Std.OrientedCmp.eq_swap
  · have hab := Ordering.isLE_iff_ne_gt.mpr hab
    have hbc := Ordering.isLE_iff_ne_gt.mpr hbc
    constructor
    · exact Ordering.isLE_iff_ne_gt.mp (Std.TransCmp.isLE_trans hab hbc)
    · rintro (hlt | hlt)
      · exact Std.TransCmp.lt_of_lt_of_isLE hlt hbc
      · exact Std.TransCmp.lt_of_isLE_of_lt hab hlt
  · rw [compare?_opposite, compare?_eq_some ha hb, Option.map_some]

/-- Levels with a NaN of either sign and both zeros, and labels. -/
def levelKeys : List SortKey :=
  [⟨.numeric "level" .double
      #[⟨0x7ff8000000000000⟩, ⟨0x8000000000000000⟩, ⟨0xfff8000000000000⟩, ⟨0⟩] false false, true⟩,
   ⟨.text "label" #[0, 1, 0, 0] #["", "a"] false, false⟩]

/-- NaNs of either sign tie, and under a descending key they come before both zeros. -/
theorem exists_orders_levelKeys :
    compare? levelKeys 0 2 = some .eq ∧ compare? levelKeys 2 3 = some .lt ∧
      compare? levelKeys 0 3 = some .lt ∧ compare? (levelKeys.map .opposite) 0 2 = some .eq := by
  have hab : compare? levelKeys 0 2 = some .eq := by decide +kernel
  have hbc : compare? levelKeys 2 3 = some .lt := by decide +kernel
  obtain ⟨ab, bc, ac, hab', hbc', hac, -, -, htrans, hopposite⟩ :=
    exists_orders (show Covers levelKeys 0 by decide) (show Covers levelKeys 2 by decide)
      (show Covers levelKeys 3 by decide)
  obtain rfl := Option.some.inj (hab.symm.trans hab')
  obtain rfl := Option.some.inj (hbc.symm.trans hbc')
  obtain rfl := (htrans Ordering.noConfusion Ordering.noConfusion).2 (.inr rfl)
  exact ⟨hab, hbc, hac, hopposite⟩

/-! ## Sorting by a chain -/

/-- Whether a row may stand before another under a chain of keys. -/
def AtMost (keys : List SortKey) (a b : Nat) : Prop := ∃ order ∈ compare? keys a b, order ≠ .gt

theorem atMost_iff : AtMost keys a b ↔
    compare? keys a b = some (compare keys a b) ∧ (compare keys a b).isLE = true := by
  rw [Ordering.isLE_iff_ne_gt]
  constructor
  · rintro ⟨order, horder, hne⟩
    rw [compare_of_compare? horder]
    exact ⟨horder, hne⟩
  · exact fun ⟨horder, hle⟩ => ⟨_, horder, hle⟩

instance : Trans (AtMost keys) (AtMost keys) (AtMost keys) where
  trans {a b c} hab hbc := by
    obtain ⟨hab, hle⟩ := atMost_iff.mp hab
    obtain ⟨hbc, hle'⟩ := atMost_iff.mp hbc
    rw [atMost_iff]
    constructor
    · exact compare?_trans (by rw [hab]; rfl) hle (by rw [hbc]; rfl) hle'
    · exact Std.TransCmp.isLE_trans hle hle'

theorem atMost_cons (h : AtMost [k] a b) (hrest : compare [k] a b = .eq → AtMost keys a b) :
    AtMost (k :: keys) a b := by
  obtain ⟨order, horder, hne⟩ := h
  have hcompare := compare_of_compare? horder
  simp only [AtMost, compare?, Option.mem_def] at horder ⊢
  rcases hk : k.compare? a b with _ | _ | _ | _
  · rw [hk] at horder
    cases horder
  · exact ⟨.lt, rfl, Ordering.noConfusion⟩
  · rw [hk] at horder
    exact hrest (hcompare.trans (Option.some.inj horder).symm)
  · rw [hk] at horder
    exact absurd (Option.some.inj horder).symm hne

theorem comparable_arrange_iff : comparable keys (arrange keys rows) = true ↔
    (arrange keys rows).Pairwise (AtMost keys) := by
  constructor
  · intro hc
    rw [← List.isChain_iff_pairwise]
    exact (isChain_of_comparable hc pairwise_arrange).imp fun a b => atMost_iff.mpr
  · intro h
    refine comparable_of_isChain (h.isChain.imp fun a b hab => ?_)
    rw [(atMost_iff.mp hab).1]
    rfl

/-- A sort has a result if its rows can be compared in the order in which it leaves them. -/
theorem sort?_eq_some_iff_pairwise : sort? keys rows = some sorted ↔
    sorted = arrange keys rows ∧ sorted.Pairwise (AtMost keys) := by
  rw [sort?_eq_some_iff]
  refine and_congr_right ?_
  rintro rfl
  exact comparable_arrange_iff

/-- There is one way to put rows in order and to keep those that tie in their order. -/
theorem eq_arrange (hsorted : sorted.Pairwise fun a b => (compare keys a b).isLE = true)
    (hstable : ∀ row, sorted.filter (compare keys row · == .eq) =
      rows.filter (compare keys row · == .eq)) : sorted = arrange keys rows :=
  eq_of_filter_eq (compare keys) hsorted pairwise_arrange fun row =>
    (hstable row).trans filter_arrange.symm

theorem compare_singleton (k : SortKey) (a b : Nat) : compare [k] a b = k.compare a b :=
  Ordering.then_eq

/-- Rows in the order of the later keys, sorted by the first one, are in the order of all. -/
theorem sort?_cons (hmid : sort? keys rows = some mid) (h : sort? [k] mid = some sorted) :
    sort? (k :: keys) rows = some sorted := by
  obtain ⟨rfl, hmid⟩ := sort?_eq_some_iff_pairwise.mp hmid
  obtain ⟨rfl, h⟩ := sort?_eq_some_iff_pairwise.mp h
  have hsorted : (arrange [k] (arrange keys rows)).Pairwise (AtMost (k :: keys)) :=
    (h.and (pairwise_tied hmid)).imp fun hab => atMost_cons hab.1 hab.2
  rw [sort?_eq_some_iff_pairwise]
  refine ⟨eq_arrange (hsorted.imp fun hab => (atMost_iff.mp hab).2) fun row => ?_, hsorted⟩
  have htied (rows : List Nat) : rows.filter (compare (k :: keys) row · == .eq) =
      (rows.filter (compare keys row · == .eq)).filter (compare [k] row · == .eq) := by
    rw [List.filter_filter]
    refine List.filter_congr fun b _ => ?_
    rw [compare_singleton, compare, Bool.eq_iff_iff]
    simp only [beq_iff_eq, Bool.and_eq_true, Ordering.then_eq_eq]
  calc (arrange [k] (arrange keys rows)).filter (compare (k :: keys) row · == .eq)
    _ = ((arrange [k] (arrange keys rows)).filter (compare [k] row · == .eq)).filter
          (compare keys row · == .eq) := by rw [htied, List.filter_comm]
    _ = ((arrange keys rows).filter (compare keys row · == .eq)).filter
          (compare [k] row · == .eq) := by rw [filter_arrange, List.filter_comm]
    _ = rows.filter (compare (k :: keys) row · == .eq) := by rw [filter_arrange, htied]

/-- Sorts rows by one key after another, the last one first. -/
def sortEach? (keys : List SortKey) (rows : List Nat) : Option (List Nat) :=
  keys.foldrM (fun k => sort? [k]) rows

theorem sortEach?_cons (k : SortKey) (keys : List SortKey) (rows : List Nat) :
    sortEach? (k :: keys) rows = (sortEach? keys rows).bind (sort? [k]) :=
  List.foldrM_cons

theorem sort?_of_sortEach? (h : sortEach? keys rows = some sorted) :
    sort? keys rows = some sorted := by
  induction keys generalizing sorted with
  | nil =>
    obtain rfl := Option.some.inj h
    refine sort?_eq_some_iff_pairwise.mpr ⟨(List.mergeSort_of_pairwise ?_).symm, ?_⟩
    · exact List.pairwise_of_forall fun _ _ => rfl
    · exact List.pairwise_of_forall fun _ _ => ⟨.eq, rfl, Ordering.noConfusion⟩
  | cons k keys ih =>
    rw [sortEach?_cons, Option.bind_eq_some_iff] at h
    obtain ⟨mid, hmid, h⟩ := h
    exact sort?_cons (ih hmid) h

theorem exists_sortEach? (h : ∀ row ∈ rows, Covers keys row) :
    ∃ sorted, sortEach? keys rows = some sorted := by
  induction keys with
  | nil => exact ⟨rows, rfl⟩
  | cons k keys ih =>
    obtain ⟨mid, hmid⟩ := ih fun row hrow k hk => h row hrow k (List.mem_cons_of_mem _ hk)
    have hperm := perm_sort? (sort?_of_sortEach? hmid)
    have hcovers : ∀ row ∈ mid, Covers [k] row := by
      intro row hrow k' hk'
      obtain rfl := List.mem_singleton.mp hk'
      exact h row (hperm.mem_iff.mp hrow) _ List.mem_cons_self
    exact ⟨_, by rw [sortEach?_cons, hmid]; exact sort?_eq_some (exists_cells hcovers)⟩

theorem filter_sort? (h : sort? keys rows = some sorted) (row : Nat) :
    sorted.filter (compare? keys row · == some .eq) =
      rows.filter (compare? keys row · == some .eq) := by
  obtain ⟨rfl, -⟩ := sort?_eq_some_iff_pairwise.mp h
  -- Absent cells may tie as well, so these rows are some of those that sorting is known to keep.
  have htied (rows : List Nat) : rows.filter (compare? keys row · == some .eq) =
      (rows.filter (compare keys row · == .eq)).filter (compare? keys row · == some .eq) := by
    rw [List.filter_filter]
    refine List.filter_congr fun b _ => ?_
    rw [Bool.eq_iff_iff, Bool.and_eq_true, beq_iff_eq, beq_iff_eq]
    exact ⟨fun heq => ⟨heq, compare_of_compare? heq⟩, And.left⟩
  rw [htied, filter_arrange, ← htied]

/--
Sorting by a chain of keys gives what sorting by one key after another gives, the last one first,
which is defined on all rows that the keys cover. The result has the rows in the order of the keys,
those that compare equal in the order in which they were given, and sorting again changes nothing.
-/
theorem sort?_eq_sortEach? :
    ((∀ row ∈ rows, Covers keys row) → ∃ sorted, sortEach? keys rows = some sorted) ∧
      (∀ sorted, sortEach? keys rows = some sorted → sort? keys rows = some sorted) ∧
      ∀ sorted, sort? keys rows = some sorted →
        sorted.Perm rows ∧ sorted.Pairwise (AtMost keys) ∧
          (∀ row, sorted.filter (compare? keys row · == some .eq) =
            rows.filter (compare? keys row · == some .eq)) ∧
          sort? keys sorted = some sorted := by
  refine ⟨exists_sortEach?, fun sorted => sort?_of_sortEach?, fun sorted h => ?_⟩
  obtain ⟨-, hsorted⟩ := sort?_eq_some_iff_pairwise.mp h
  refine ⟨perm_sort? h, hsorted, filter_sort? h, sort?_eq_some_iff_pairwise.mpr ⟨?_, hsorted⟩⟩
  exact (List.mergeSort_of_pairwise (hsorted.imp fun hab => (atMost_iff.mp hab).2)).symm

theorem sort?_eq_sortEach?_levelKeys :
    sortEach? levelKeys [3, 2, 1, 0, 3] = some [2, 0, 3, 3, 1] ∧
      sort? levelKeys [3, 2, 1, 0, 3] = some [2, 0, 3, 3, 1] ∧
      sort? levelKeys [2, 0, 3, 3, 1] = some [2, 0, 3, 3, 1] := by
  obtain ⟨sorted, heach⟩ := sort?_eq_sortEach?.1
    (show ∀ row ∈ [3, 2, 1, 0, 3], Covers levelKeys row by decide)
  have hsort := sort?_eq_sortEach?.2.1 sorted heach
  obtain ⟨-, -, -, hagain⟩ := sort?_eq_sortEach?.2.2 sorted hsort
  have heval : sort? levelKeys [3, 2, 1, 0, 3] = some [2, 0, 3, 3, 1] := by
    rw [sort?_eq_insertionSort]
    decide
  obtain rfl := Option.some.inj (heval.symm.trans hsort)
  exact ⟨heach, hsort, hagain⟩

end RowOrder

end Columnar
