import Mathlib.Data.Set.Card
import Mathlib.Order.Interval.Finset.Nat
import Columnar.Bounds

/-! # Bounds as sets of rows

Intersected bounds hold the rows that both sides hold. An intersection without rows still has a
place, the start that it was cut to, and yet bounds may be intersected in any order and grouping
with one result.
-/

namespace Columnar.Bounds

/-- The common rows of two bounds, in a range that is not inverted. -/
structure IsCommon (a b common : Bounds) : Prop where
  contains_iff : ∀ row, common.contains row = true ↔ a.contains row = true ∧ b.contains row = true
  lo_le_hi : common.lo ≤ common.hi
  consumed_iff : common.consumed = true ↔ a.consumed = true ∧ b.consumed = true

theorem isCommon_intersect (a b : Bounds) : a.IsCommon b (a.intersect b) where
  contains_iff _ := contains_intersect_iff
  lo_le_hi := lo_le_hi_intersect a b
  consumed_iff := Bool.and_eq_true_iff

theorem ncard_setOf_contains (b : Bounds) : {row | b.contains row = true}.ncard = b.length := by
  have hrows : {row | b.contains row = true} = Finset.Ico b.lo b.hi := by
    ext row
    rw [Set.mem_ofPred_eq, contains_iff, Finset.coe_Ico, Set.mem_Ico]
  rw [hrows, Set.ncard_coe_finset, Nat.card_Ico, length]

theorem length_eq_of_contains {a b : Bounds}
    (h : ∀ row, a.contains row = true ↔ b.contains row = true) : a.length = b.length := by
  rw [← ncard_setOf_contains, ← ncard_setOf_contains]
  simp only [h]

/-! ## Intersecting many bounds -/

theorem intersect_comm (a b : Bounds) : a.intersect b = b.intersect a := by
  simp only [intersect, Nat.max_comm a.lo, Nat.min_comm a.hi, Bool.and_comm a.consumed]

/-- An end that was raised to a start makes no difference once it is raised to a later start. -/
theorem max_min_max {lo lo' : Nat} (h : lo ≤ lo') (hi hi' : Nat) :
    max (min (max hi lo) hi') lo' = max (min hi hi') lo' := by
  omega

theorem intersect_assoc (a b c : Bounds) :
    (a.intersect b).intersect c = a.intersect (b.intersect c) := by
  have hab : max a.lo b.lo ≤ max a.lo (max b.lo c.lo) := by omega
  have hbc : max b.lo c.lo ≤ max a.lo (max b.lo c.lo) := Nat.le_max_right _ _
  have hhi : max (min (max (min a.hi b.hi) (max a.lo b.lo)) c.hi) (max a.lo (max b.lo c.lo)) =
      max (min a.hi (max (min b.hi c.hi) (max b.lo c.lo))) (max a.lo (max b.lo c.lo)) := by
    rw [max_min_max hab, Nat.min_comm a.hi (max _ _), max_min_max hbc, Nat.min_assoc,
      Nat.min_comm a.hi (min _ _)]
  simp only [intersect, Nat.max_assoc, Bool.and_assoc]
  rw [hhi]

instance : Std.Commutative intersect := ⟨intersect_comm⟩

instance : Std.Associative intersect := ⟨intersect_assoc⟩

/-- Bounds that are inverted are no intersection, not even with themselves. -/
theorem intersect_self_iff {a : Bounds} : a.intersect a = a ↔ a.lo ≤ a.hi := by
  constructor
  · intro h
    rw [← h]
    exact lo_le_hi_intersect a a
  · intro h
    simp only [intersect, Nat.max_self, Nat.min_self, Nat.max_eq_left h, Bool.and_self]

theorem foldl_intersect_of_perm {bounds bounds' : List Bounds} (h : bounds.Perm bounds')
    (b : Bounds) : bounds.foldl intersect b = bounds'.foldl intersect b :=
  h.foldl_eq b

/--
Intersection of bounds, inverted ones too, is that of their sets of rows: it holds the common rows,
has their number for its length, and is consumed if both sides are. As an operation on bounds it is
commutative, associative and, unless they are inverted, idempotent. So bounds that are folded into
the first `n` rows give one result in every order.
-/
theorem intersect_common_rows (a b c : Bounds) :
    a.IsCommon b (a.intersect b) ∧
      {row | (a.intersect b).contains row = true}.ncard = (a.intersect b).length ∧
      a.intersect b = b.intersect a ∧
      (a.intersect b).intersect c = a.intersect (b.intersect c) ∧
      (a.intersect a = a ↔ a.lo ≤ a.hi) ∧
      ∀ n (bounds bounds' : List Bounds), bounds.Perm bounds' →
        bounds.foldl intersect (.full n) = bounds'.foldl intersect (.full n) :=
  ⟨isCommon_intersect a b, ncard_setOf_contains _, intersect_comm a b, intersect_assoc a b c,
    intersect_self_iff, fun n _ _ h => foldl_intersect_of_perm h (.full n)⟩

/-- Bounds without a common row leave an empty range, at the start that is greatest of all. -/
theorem intersect_common_rows_disjoint :
    [⟨5, 9, true⟩, ⟨2, 3, true⟩, ⟨7, 4, false⟩].foldl intersect (.full 6) = ⟨7, 7, false⟩ ∧
      [⟨7, 4, false⟩, ⟨5, 9, true⟩, ⟨2, 3, true⟩].foldl intersect (.full 6) =
        [⟨5, 9, true⟩, ⟨2, 3, true⟩, ⟨7, 4, false⟩].foldl intersect (.full 6) := by
  refine ⟨rfl, ?_⟩
  exact (intersect_common_rows ⟨5, 9, true⟩ ⟨2, 3, true⟩ ⟨7, 4, false⟩).2.2.2.2.2 6 _ _ (by decide)

end Columnar.Bounds
