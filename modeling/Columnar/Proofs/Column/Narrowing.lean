import Columnar.Proofs.Column.Bounds
import Columnar.Proofs.Column.Order

/-! # What the bounds of a column promise

The bounds of ascending numbers leave out no row that meets the constraint. Among finite numbers
they are exact as well: bounds that are consumed hold only rows that meet it, and a comparison is
left unconsumed only where it holds of every row.
-/

namespace Columnar

/-- The comparisons that a range of ascending numbers can answer. -/
def Operator.comparisons : List Operator := [.eq, .lt, .le, .gt, .ge]

theorem Operator.isNarrowing_iff_mem {op : Operator} :
    op.isNarrowing = true ↔ op ∈ comparisons := by
  cases op <;> simp [isNarrowing, isLowerBound, isUpperBound, comparisons]

/-! ## Promises -/

namespace Column

/-- Bounds within the first `n` rows, outside which no row meets a constraint on the column. -/
structure SoundBounds (c : Column) (op : Operator) (literal : Value) (n : Nat) (b : Bounds) :
    Prop where
  lo_le_hi : b.lo ≤ b.hi
  hi_le : b.hi ≤ n
  contains : ∀ row, c.satisfies? op literal row = some true → b.contains row = true

/--
Bounds that answer a constraint if they are consumed, and else hold all rows. A comparison with a
number is left unconsumed only if every row meets it.
-/
structure ExactBounds (c : Column) (op : Operator) (literal : Value) (n : Nat) (b : Bounds) :
    Prop where
  comparison : b.consumed = true → op ∈ Operator.comparisons ∧ literal.isNumeric = true
  tight : b.consumed = true → ∀ row, b.contains row = true → c.satisfies? op literal row = some true
  full : b.consumed = false → b = .full n
  idle : b.consumed = false → op ∈ Operator.comparisons → literal.isNumeric = true →
    ∀ row < n, c.satisfies? op literal row = some true

section Numeric

variable {name : String} {type : ElementType} {values : Array type.Elem} {hidden : Bool}
  {op : Operator} {literal : Value} {row : Nat}

theorem satisfies?_numeric_of_lt {ordered : Bool} (h : row < values.size) :
    (numeric name type values hidden ordered).satisfies? op literal row =
      some ((type.cell values[row]).satisfies op literal) := by
  rw [satisfies?, cell?_numeric_of_lt h, Option.map_some]

theorem lt_size_of_satisfies? {ordered : Bool}
    (h : (numeric name type values hidden ordered).satisfies? op literal row = some true) :
    row < values.size := by
  obtain ⟨x, hx, _⟩ := Option.map_eq_some_iff.mp h
  obtain ⟨v, hv, _⟩ := cell?_cases hx
  exact (Array.getElem?_eq_some_iff.mp hv).1

theorem hasRow_numeric {ordered : Bool} (hsize : values.size ≤ rowLimit) (h : row < values.size) :
    (numeric name type values hidden ordered).HasRow row := by
  refine ⟨by omega, ?_⟩
  rintro n ⟨⟩
  exact Nat.lt_min.mpr ⟨h, by omega⟩

theorem rowLength_of_le {n : Nat} (h : n ≤ rowLimit) : rowLength n = n := Nat.min_eq_left h

/-- A row that meets the constraint is never left out, be the bounds consumed or not. -/
theorem soundBounds_numeric (hsize : values.size ≤ rowLimit)
    (hs : (numeric name type values hidden true).Ascending)
    (hn : (numeric name type values hidden true).All (!·.isNaN)) :
    (numeric name type values hidden true).SoundBounds op literal values.size
      ((numeric name type values hidden true).bounds op literal) where
  lo_le_hi := lo_bounds_le _ op literal
  hi_le := by
    have h := (type.sortedBounds_le values op literal).2
    rwa [rowLength_of_le hsize] at h
  contains row h := by
    have hr : (numeric name type values hidden true).HasRow row :=
      hasRow_numeric hsize (lt_size_of_satisfies? h)
    cases hc : ((numeric name type values hidden true).bounds op literal).consumed with
    | false => exact contains_bounds_of_not_consumed hc hr
    | true =>
      obtain ⟨x, hx, hsat⟩ := Option.map_eq_some_iff.mp h
      have hl := (isNumeric_of_consumed hc).2.2
      rw [contains_bounds_iff (fun _ => hs) (fun _ => hn) hc hr]
      exact ⟨x, hx, .inl ((Cell.satisfies_iff (isSome_asFloat? rfl hx) hl).mp hsat)⟩

theorem exactBounds_numeric (hsize : values.size ≤ rowLimit)
    (hs : (numeric name type values hidden true).Ascending)
    (hf : (numeric name type values hidden true).All Cell.isFinite) :
    (numeric name type values hidden true).ExactBounds op literal values.size
      ((numeric name type values hidden true).bounds op literal) := by
  have hn : (numeric name type values hidden true).All (!·.isNaN) :=
    fun row x hx => Cell.not_isNaN_of_isFinite (hf row x hx)
  have hfinite {row : Nat} (h : row < values.size) : (type.cell values[row]).isFinite = true :=
    hf row _ (cell?_numeric_of_lt h)
  constructor
  case comparison =>
    intro hc
    obtain ⟨hl, hparts⟩ := ElementType.consumed_sortedBounds_iff.mp hc
    exact ⟨Operator.isNarrowing_iff_mem.mp (ElementType.isNarrowing_of_isSome hparts), hl⟩
  case tight =>
    intro hc row hrow
    obtain ⟨hl, hparts⟩ := ElementType.consumed_sortedBounds_iff.mp hc
    have hlt : row < values.size :=
      Nat.lt_of_lt_of_le (Bounds.contains_iff.mp hrow).2 (soundBounds_numeric hsize hs hn).hi_le
    change (type.sortedBounds values op literal).contains row = true at hrow
    rw [ElementType.contains_sortedBounds_iff (atMost_of_ascending hs hn) hc hlt (by omega),
      ElementType.meets_parts_iff_of_isFinite (ElementType.isNarrowing_of_isSome hparts) hl
        (hfinite hlt)] at hrow
    rw [satisfies?_numeric_of_lt hlt, hrow]
  case full =>
    intro hc
    rw [bounds_of_not_consumed hc, rowCount?, rowLength_of_le hsize]
    rfl
  case idle =>
    intro hc hop hl row hlt
    have hparts := mt ElementType.consumed_sortedBounds_iff.mpr (Bool.eq_false_iff.mp hc)
    obtain ⟨hlower, hupper⟩ : type.lowerPart? op literal = none ∧
        type.upperPart? op literal = none := by
      simpa only [hl, true_and, not_or, Option.not_isSome_iff_eq_none] using hparts
    have hmeets := ElementType.meets_parts_iff_of_isFinite (Operator.isNarrowing_iff_mem.mpr hop) hl
      (hfinite hlt)
    rw [hlower, hupper] at hmeets
    rw [satisfies?_numeric_of_lt hlt, hmeets.mp ⟨rfl, rfl⟩]

/--
Bounds of ascending numbers without NaN are sound for every constraint, and exact where all numbers
are finite.
-/
theorem bounds_numeric (op : Operator) (literal : Value) (hsize : values.size ≤ rowLimit)
    (hs : (numeric name type values hidden true).Ascending)
    (hn : (numeric name type values hidden true).All (!·.isNaN)) :
    (numeric name type values hidden true).SoundBounds op literal values.size
        ((numeric name type values hidden true).bounds op literal) ∧
      ((numeric name type values hidden true).All Cell.isFinite →
        (numeric name type values hidden true).ExactBounds op literal values.size
          ((numeric name type values hidden true).bounds op literal)) :=
  ⟨soundBounds_numeric hsize hs hn, exactBounds_numeric hsize hs⟩

end Numeric

/-- Counts up to the greatest one of 64 bits, which stands twice. -/
def counts : Column :=
  .numeric "count" (.integer .uint64)
    #[⟨0, by decide⟩, ⟨0x8000000000000000, by decide⟩, ⟨0xffffffffffffffff, by decide⟩,
      ⟨0xffffffffffffffff, by decide⟩] false true

/-- Two to the 64th, which is above all counts but equals the greatest one as a double. -/
def pastCounts : Value := .float ⟨0x43f0000000000000⟩

theorem bounds_numeric_counts :
    counts.bounds .eq pastCounts = ⟨2, 4, true⟩ ∧
      counts.SoundBounds .eq pastCounts 4 (counts.bounds .eq pastCounts) ∧
      counts.ExactBounds .eq pastCounts 4 (counts.bounds .eq pastCounts) := by
  have hs : counts.Ascending := ascending_numeric_iff.mpr (by decide)
  have hn : counts.All (!·.isNaN) := all_numeric_iff.mpr fun _ _ => rfl
  have hf : counts.All Cell.isFinite := all_numeric_iff.mpr fun _ _ => rfl
  have h := bounds_numeric .eq pastCounts (by decide +kernel) hs hn
  exact ⟨by decide +kernel, h.1, h.2 hf⟩

end Column

end Columnar
