/-! # Row bounds

A constraint on a sorted column leaves one contiguous range of rows. Bounds are such a half-open
range together with the knowledge whether the range answers its constraint in full.
-/

namespace Columnar

/-- The greatest row count, and the end of a range that has not been cut. -/
def rowLimit : Nat := 0xffffffff

/-- The length of a sequence as a row count; rows past the limit do not exist. -/
def rowLength (length : Nat) : Nat := min length rowLimit

/-- A half-open range of rows that holds every row able to satisfy a constraint. -/
structure Bounds where
  lo : Nat
  hi : Nat
  /-- Every row in the range satisfies the constraint, which needs no further filter. -/
  consumed : Bool
  deriving DecidableEq

namespace Bounds

/-- The bounds of a column that has no length of its own. -/
def unlimited : Bounds := ⟨0, rowLimit, false⟩

/-- The first `n` rows, with the constraint still to be tested. -/
def full (n : Nat) : Bounds := ⟨0, n, false⟩

/-- The number of rows in the range; an inverted range has none. -/
def length (b : Bounds) : Nat := b.hi - b.lo

def isEmpty (b : Bounds) : Bool := b.length == 0

def contains (b : Bounds) (row : Nat) : Bool := decide (b.lo ≤ row) && decide (row < b.hi)

/-- The common rows. An empty result ends where it starts, and needs both sides to be consumed. -/
def intersect (a b : Bounds) : Bounds where
  lo := max a.lo b.lo
  hi := max (min a.hi b.hi) (max a.lo b.lo)
  consumed := a.consumed && b.consumed

theorem contains_iff {b : Bounds} {row : Nat} :
    b.contains row = true ↔ b.lo ≤ row ∧ row < b.hi := by
  simp only [contains, Bool.and_eq_true, decide_eq_true_eq]

theorem contains_intersect_iff {a b : Bounds} {row : Nat} :
    (a.intersect b).contains row = true ↔ a.contains row = true ∧ b.contains row = true := by
  simp only [contains_iff, intersect]
  omega

theorem lo_le_hi_intersect (a b : Bounds) : (a.intersect b).lo ≤ (a.intersect b).hi := by
  simp only [intersect]
  omega

end Bounds

end Columnar
