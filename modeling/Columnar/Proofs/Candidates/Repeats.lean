import Mathlib.Data.Set.Card
import Columnar.Proofs.Candidates.Requests

/-! # Rows that are given twice

The lists that a set of candidates is intersected with ascend, and nothing else is asked of them. A
candidate that a list repeats is listed and counted as often as it is given, and filters then test
it as often. A set lists and counts each of its rows once until this happens.
-/

namespace Columnar.Candidates

/-- An operation that narrows a set: a filter by a predicate with a state, or an intersection. -/
inductive Narrowing where
  | filter {σ : Type} (p : Nat → StateM σ Bool) (state : σ)
  /-- The rows ascend, but a row may be followed by itself. -/
  | intersect (rows : List Nat) (ascending : rows.Pairwise (· ≤ ·))

def narrow (c : Candidates) : Narrowing → Candidates
  | .filter p state => (c.filterM p state).1
  | .intersect rows _ => c.intersect rows

/-- What operations leave of the rows from `start` up to `stop`. -/
def narrowed (start stop : Nat) (narrowings : List Narrowing) : Candidates :=
  narrowings.foldl narrow (ofRange start stop)

/-- Whether the candidates are listed once each, in order, and counted once each. -/
structure Distinct (c : Candidates) : Prop where
  ascending : c.toList.Pairwise (· < ·)
  count_eq : c.count = {row | c.contains row = true}.ncard

/-- Whether some row of a set is given more than once. -/
def Repeats (c : Candidates) (rows : List Nat) : Prop :=
  ∃ row, c.contains row = true ∧ 1 < rows.count row

/-- The rows that a set lists ascend within its range, where a row may be followed by itself. -/
structure Ordered (c : Candidates) : Prop where
  ascending : c.toList.Pairwise (· ≤ ·)
  inRange : ∀ row ∈ c.toList, c.inRange row = true

variable {c : Candidates} {row : Nat} {rows : List Nat}

/-! ## One set -/

theorem Proper.ordered (h : c.Proper) : c.Ordered where
  ascending := h.ascending.imp Nat.le_of_lt
  inRange := h.inRange

namespace Ordered

theorem contains_iff (h : c.Ordered) : c.contains row = true ↔ row ∈ c.toList :=
  contains_iff_mem h.inRange

theorem distinct_iff (h : c.Ordered) : c.Distinct ↔ c.toList.Nodup := by
  constructor
  · exact fun hc => hc.ascending.imp Nat.ne_of_lt
  · intro hnodup
    refine ⟨?_, ?_⟩
    · exact (h.ascending.and hnodup).imp fun hle => Nat.lt_of_le_of_ne hle.1 hle.2
    · have hset : {row | c.contains row = true} = (c.toList.toFinset : Set Nat) := by
        ext row
        rw [Set.mem_ofPred_eq, h.contains_iff, Finset.mem_coe, List.mem_toFinset]
      rw [hset, Set.ncard_coe_finset, List.toFinset_card_of_nodup hnodup, count_eq_length]

/-- Rows that are listed once are counted without exceeding the range. -/
theorem count_le_of_distinct (h : c.Ordered) (hc : c.Distinct) : c.count ≤ c.stop - c.start := by
  have hsub : c.toList ⊆ c.range := fun row hrow => mem_range_iff.mpr (h.inRange row hrow)
  have hle := (List.subperm_of_subset (h.distinct_iff.mp hc) hsub).length_le
  rwa [range, List.length_range', ← count_eq_length] at hle

/-! ## One operation -/

theorem toList_intersect (h : c.Ordered) (hrows : rows.Pairwise (· ≤ ·)) :
    (c.intersect rows).toList = rows.filter c.contains :=
  Candidates.toList_intersect h.ascending h.inRange hrows

theorem intersect (h : c.Ordered) (hrows : rows.Pairwise (· ≤ ·)) : (c.intersect rows).Ordered := by
  have hlist := h.toList_intersect hrows
  refine ⟨?_, fun row hrow => ?_⟩
  · rw [hlist]
    exact hrows.filter _
  · rw [hlist] at hrow
    exact inRange_of_contains (c := c) (List.mem_filter.mp hrow).2

/-- An intersection lists its rows once if it is given no candidate twice, and not otherwise. -/
theorem distinct_intersect_iff (h : c.Ordered) (hrows : rows.Pairwise (· ≤ ·)) :
    (c.intersect rows).Distinct ↔ ¬ c.Repeats rows := by
  rw [(h.intersect hrows).distinct_iff, h.toList_intersect hrows, List.nodup_iff_count_le_one]
  simp only [Repeats, not_exists, not_and, Nat.not_lt]
  refine forall_congr' fun row => ⟨fun hle hrow => ?_, fun hle => ?_⟩
  · rwa [List.count_filter hrow] at hle
  · cases hrow : c.contains row with
    | true =>
      rw [List.count_filter hrow]
      exact hle hrow
    | false =>
      rw [List.count_eq_zero.mpr]
      · exact Nat.zero_le 1
      · rw [List.mem_filter, hrow]
        exact fun hmem => Bool.false_ne_true hmem.2

theorem count_intersect_le (h : c.Ordered) (hrows : rows.Pairwise (· ≤ ·))
    (honce : ¬ c.Repeats rows) : (c.intersect rows).count ≤ c.count := by
  have hnodup := (h.intersect hrows).distinct_iff.mp ((h.distinct_intersect_iff hrows).mpr honce)
  rw [count_eq_length, count_eq_length]
  refine (List.subperm_of_subset hnodup fun row hrow => ?_).length_le
  rw [h.toList_intersect hrows] at hrow
  exact h.contains_iff.mp (List.mem_filter.mp hrow).2

end Ordered

theorem keepM_sublist {σ : Type} (p : Nat → StateM σ Bool) (rows : List Nat) (state : σ) :
    (keepM p rows state).1.Sublist rows := by
  induction rows generalizing state with
  | nil => exact .slnil
  | cons row rows ih =>
    have ih := ih (p row state).2
    change List.Sublist (if (p row state).1 then row :: (keepM p rows (p row state).2).1
      else (keepM p rows (p row state).2).1) (row :: rows)
    split
    · exact ih.cons_cons row
    · exact ih.cons row

theorem toList_filterM_sublist {σ : Type} (p : Nat → StateM σ Bool) (state : σ) :
    (c.filterM p state).1.toList.Sublist c.toList := by
  have hlist : (c.filterM p state).1.toList = (keepM p c.toList state).1 :=
    congrArg Prod.fst (congrFun (toList_filterM p c) state)
  rw [hlist]
  exact keepM_sublist p c.toList state

theorem Ordered.narrow (h : c.Ordered) (narrowing : Narrowing) : (c.narrow narrowing).Ordered := by
  cases narrowing with
  | intersect rows hrows => exact h.intersect hrows
  | filter p state =>
    have hsub := toList_filterM_sublist (c := c) p state
    refine ⟨h.ascending.sublist hsub, fun row hrow => ?_⟩
    change (c.filterM p state).1.inRange row = true
    rw [inRange_filterM]
    exact h.inRange row (hsub.subset hrow)

/-! ## Runs of operations -/

variable {start stop : Nat} {narrowings : List Narrowing}

theorem narrowed_concat (narrowing : Narrowing) :
    narrowed start stop (narrowings ++ [narrowing]) =
      (narrowed start stop narrowings).narrow narrowing :=
  List.foldl_concat _ _ _ _

theorem ordered_narrowed (start stop : Nat) (narrowings : List Narrowing) :
    (narrowed start stop narrowings).Ordered := by
  induction narrowings using List.reverseRecOn with
  | nil => exact (proper_ofRange start stop).ordered
  | append_singleton narrowings narrowing ih =>
    rw [narrowed_concat]
    exact ih.narrow narrowing

theorem distinct_narrowed
    (h : ∀ earlier rows hrows, earlier ++ [.intersect rows hrows] <+: narrowings →
      ¬ (narrowed start stop earlier).Repeats rows) :
    (narrowed start stop narrowings).Distinct := by
  induction narrowings using List.reverseRecOn with
  | nil =>
    refine (ordered_narrowed start stop []).distinct_iff.mpr ?_
    exact (proper_ofRange start stop).ascending.imp Nat.ne_of_lt
  | append_singleton narrowings narrowing ih =>
    have hordered := ordered_narrowed start stop narrowings
    rw [narrowed_concat]
    cases narrowing with
    | intersect rows hrows =>
      exact (hordered.distinct_intersect_iff hrows).mpr (h narrowings rows hrows List.prefix_rfl)
    | filter p state =>
      have ih := ih fun earlier rows hrows hearly =>
        h earlier rows hrows (hearly.trans (List.prefix_append _ _))
      refine (hordered.narrow (.filter p state)).distinct_iff.mpr ?_
      exact (hordered.distinct_iff.mp ih).sublist (toList_filterM_sublist p state)

/--
However a set has been narrowed, it lists its rows in ascending order and contains those that it
lists. It has listed and counted each row once at every point if and only if no intersection was
given a list that repeats one of the candidates just before it. An intersection with any other list
does not raise the count.
-/
theorem forall_distinct_narrowed_iff (start stop : Nat) (narrowings : List Narrowing) :
    (narrowed start stop narrowings).toList.Pairwise (· ≤ ·) ∧
      (∀ row, (narrowed start stop narrowings).contains row = true ↔
        row ∈ (narrowed start stop narrowings).toList) ∧
      (narrowed start stop narrowings).count = (narrowed start stop narrowings).toList.length ∧
      ((∀ earlier, earlier <+: narrowings → (narrowed start stop earlier).Distinct) ↔
        ∀ earlier rows hrows, earlier ++ [.intersect rows hrows] <+: narrowings →
          ¬ (narrowed start stop earlier).Repeats rows) ∧
      ∀ rows, rows.Pairwise (· ≤ ·) → ¬ (narrowed start stop narrowings).Repeats rows →
        ((narrowed start stop narrowings).intersect rows).count ≤
          (narrowed start stop narrowings).count := by
  have hordered := ordered_narrowed start stop narrowings
  refine ⟨hordered.ascending, fun _ => hordered.contains_iff, count_eq_length _, ?_,
    fun _ hrows => hordered.count_intersect_le hrows⟩
  constructor
  · intro hdistinct earlier rows hrows hearly
    have hafter := hdistinct _ hearly
    rw [narrowed_concat] at hafter
    exact ((ordered_narrowed start stop earlier).distinct_intersect_iff hrows).mp hafter
  · intro hnone earlier hearlier
    refine distinct_narrowed fun before rows hrows hearly => ?_
    exact hnone before rows hrows (hearly.trans hearlier)

/-- A lone row that is given twice is counted twice. -/
theorem not_distinct_narrowed_twice :
    (ofRange 0 1).count = 1 ∧
      (narrowed 0 1 [.intersect [0, 0] (by decide)]).toList = [0, 0] ∧
      (narrowed 0 1 [.intersect [0, 0] (by decide)]).count = 2 ∧
      ¬ (narrowed 0 1 [.intersect [0, 0] (by decide)]).Distinct := by
  have hlist : (narrowed 0 1 [.intersect [0, 0] (by decide)]).toList = [0, 0] := by decide
  refine ⟨by decide, hlist, by decide, fun h => ?_⟩
  have hascending := h.ascending
  rw [hlist] at hascending
  exact absurd hascending (by decide)

end Columnar.Candidates
