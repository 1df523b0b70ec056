import Columnar.Proofs.Binary64
import Columnar.Schema

/-! # The meaning of queries

What a constraint says of a cell is stated on integers and on the keys of doubles, and the order of
cells on integers, keys and bytes. Tests and comparators of cells are shown to decide them.
-/

namespace Columnar

/-- What an operator says of two numbers; the null test and patterns accept none. -/
def Operator.Relates : Operator → Int → Int → Prop
  | .eq, a, b => a = b
  | .ne, a, b => a ≠ b
  | .lt, a, b => a < b
  | .le, a, b => a ≤ b
  | .gt, a, b => b < a
  | .ge, a, b => b ≤ a
  | .isNotNull, _, _ => True
  | .isNull, _, _ | .glob, _, _ | .like, _, _ | .other _, _, _ => False

/-- What an operator says of two doubles; NaN differs from all and relates to none. -/
def Operator.RelatesDoubles (op : Operator) (x y : Binary64) : Prop :=
  if x.isNaN = true ∨ y.isNaN = true then op = .ne ∨ op = .isNotNull else op.Relates x.key y.key

/-- What an operator says of a cell and a literal. Two integers compare exactly, text not at all. -/
def Operator.Accepts (op : Operator) : Cell → Value → Prop
  | .integer a, .integer b => op.Relates a b.toInt
  | .integer a, .float y => op.RelatesDoubles (.ofInt a) y
  | .float x, .integer b => op.RelatesDoubles x (.ofInt b.toInt)
  | .float x, .float y => op.RelatesDoubles x y
  | .text _, _ | _, .text _ | _, .null => op = .isNotNull

/-- Whether a constraint holds of the cell at a row. Text columns leave constraints to others. -/
def Schema.HoldsAt (s : Schema) (c : Constraint) (row : Nat) : Prop :=
  ∀ column ∈ s.columns[c.column]?, column.isNumeric = true →
    ∃ cell ∈ column.cell? row, c.op.Accepts cell c.value

/-- The rows of a table that meet all constraints of a query. -/
def Schema.Selects (s : Schema) (q : Query) (row : Nat) : Prop :=
  row < s.rowCount ∧ ∀ c ∈ q.constraints, s.HoldsAt c row

/-- The ascending order of the cells of a column. -/
inductive Cell.Before : Cell → Cell → Prop where
  | integer {a b : Int} : a < b → Before (.integer a) (.integer b)
  | number {x y : Binary64} : x.isNaN = false → y.isNaN = false → x.key < y.key →
      Before (.float x) (.float y)
  /-- All NaNs follow the numbers. -/
  | nan {x y : Binary64} : x.isNaN = false → y.isNaN = true → Before (.float x) (.float y)
  /-- Text is ordered by its bytes. -/
  | text {a b : String} : a.toByteArray.data.toList < b.toByteArray.data.toList →
      Before (.text a) (.text b)

/-- The order of two cells under an ORDER BY term. -/
def OrderTerm.Puts (t : OrderTerm) (x y : Cell) : Prop :=
  if t.descending then y.Before x else x.Before y

/--
The order of two rows under ORDER BY terms. The first term that separates them decides, and of rows
that none separates the earlier one comes first.
-/
def Schema.Precedes (s : Schema) : List OrderTerm → Nat → Nat → Prop
  | [], a, b => a < b
  | t :: terms, a, b => ∃ column ∈ s.columns[t.column]?, ∃ x ∈ column.cell? a, ∃ y ∈ column.cell? b,
      t.Puts x y ∨ ¬ t.Puts y x ∧ s.Precedes terms a b

/-- No cell comes before that of an earlier row. -/
def Column.Ascending (c : Column) : Prop :=
  ∀ i j x y, i < j → c.cell? i = some x → c.cell? j = some y → ¬ y.Before x

def Cell.isNaN : Cell → Bool
  | .float x => x.isNaN
  | _ => false

def Cell.isFinite : Cell → Bool
  | .float x => !x.isNaN && !x.isInfinite
  | _ => true

/-- All cells of a column pass a test. -/
def Column.All (c : Column) (p : Cell → Bool) : Prop := ∀ row, ∀ x ∈ c.cell? row, p x = true

/-- The ids of the first rows of a text column lie in its table of strings. -/
def Column.InternedBelow : Column → Nat → Prop
  | .text _ ids strings _, n => ∀ row < n, ∀ id ∈ ids[row]?, id < strings.size
  | _, _ => True

/-- Columns that promise order ascend. -/
def Schema.Ascending (s : Schema) : Prop :=
  ∀ c ∈ s.columns, c.naturallyOrdered = true → c.Ascending

/-- All cells of columns that promise order pass a test. -/
def Schema.OrderedAll (s : Schema) (p : Cell → Bool) : Prop :=
  ∀ c ∈ s.columns, c.naturallyOrdered = true → c.All p

/-- Every row of the table has its text. -/
def Schema.Interned (s : Schema) : Prop := ∀ c ∈ s.columns, c.InternedBelow s.rowCount

/-! ## Tests -/

theorem Operator.holds_some_iff {op : Operator} {a b : Int} :
    op.holds (some (compare a b)) = true ↔ op.Relates a b := by
  cases op <;>
    simp only [holds, Relates, beq_iff_eq, bne_iff_ne, Bool.or_eq_true, Option.some.injEq, ne_eq,
      Int.compare_eq_lt, Int.compare_eq_gt, Std.compare_eq_iff_eq, Bool.false_eq_true] <;>
    omega

theorem Operator.holds_none_iff {op : Operator} :
    op.holds none = true ↔ op = .ne ∨ op = .isNotNull := by
  cases op <;> simp [holds]

theorem Operator.holds_compare?_iff {op : Operator} {x y : Binary64} :
    op.holds (x.compare? y) = true ↔ op.RelatesDoubles x y := by
  simp only [Binary64.compare?, RelatesDoubles, Bool.or_eq_true]
  split
  · exact holds_none_iff
  · exact holds_some_iff

instance (op : Operator) (a b : Int) : Decidable (op.Relates a b) :=
  decidable_of_iff _ Operator.holds_some_iff

instance (op : Operator) (x y : Binary64) : Decidable (op.RelatesDoubles x y) :=
  decidable_of_iff _ Operator.holds_compare?_iff

instance (op : Operator) : (c : Cell) → (literal : Value) → Decidable (op.Accepts c literal)
  | .integer a, .integer b => inferInstanceAs (Decidable (op.Relates a b.toInt))
  | .integer a, .float y => inferInstanceAs (Decidable (op.RelatesDoubles (.ofInt a) y))
  | .float x, .integer b => inferInstanceAs (Decidable (op.RelatesDoubles x (.ofInt b.toInt)))
  | .float x, .float y => inferInstanceAs (Decidable (op.RelatesDoubles x y))
  | .text _, _ | .integer _, .text _ | .integer _, .null | .float _, .text _ | .float _, .null =>
    inferInstanceAs (Decidable (op = .isNotNull))

theorem Cell.satisfies_iff {c : Cell} {op : Operator} {literal : Value}
    (hc : c.asFloat?.isSome = true) (hl : literal.isNumeric = true) :
    c.satisfies op literal = true ↔ op.Accepts c literal := by
  cases c with
  | text => cases hc
  | integer a =>
    cases literal with
    | integer b => exact Operator.holds_some_iff
    | float y => exact Operator.holds_compare?_iff
    | text => cases hl
    | null => cases hl
  | float x =>
    cases literal with
    | integer b => exact Operator.holds_compare?_iff
    | float y => exact Operator.holds_compare?_iff
    | text => cases hl
    | null => cases hl

/-! ## Cells of columns -/

theorem Cell.not_before_self {x : Cell} : ¬ x.Before x := by
  rintro (h | ⟨_, _, h⟩ | ⟨h, h'⟩ | h)
  · exact absurd h (Int.lt_irrefl _)
  · exact absurd h (Int.lt_irrefl _)
  · rw [h] at h'
    cases h'
  · exact absurd h (List.lt_irrefl _)

theorem Cell.not_isNaN_of_isFinite {x : Cell} (h : x.isFinite = true) : (!x.isNaN) = true := by
  cases x with
  | integer => rfl
  | float => exact (Bool.and_eq_true_iff.mp h).1
  | text => rfl

theorem Schema.OrderedAll.imp {s : Schema} {p q : Cell → Bool} (h : s.OrderedAll p)
    (hpq : ∀ x, p x = true → q x = true) : s.OrderedAll q :=
  fun c hc hord row x hx => hpq x (h c hc hord row x hx)

namespace Column

variable {row : Nat} {x : Cell}

theorem cell?_cases {c : Column} (h : c.cell? row = some x) :
    match c with
    | numeric _ type values .. => ∃ v, values[row]? = some v ∧ type.cell v = x
    | text .. => ∃ s, x = .text s
    | endTime .. | rowId .. => ∃ i, x = .integer i := by
  cases c with
  | numeric => exact Option.map_eq_some_iff.mp h
  | text =>
    simp only [cell?, Option.bind_eq_bind, Option.bind_eq_some_iff, Option.pure_def,
      Option.some.injEq] at h
    obtain ⟨_, _, s, _, rfl⟩ := h
    exact ⟨s, rfl⟩
  | endTime =>
    simp only [cell?, Option.bind_eq_bind, Option.bind_eq_some_iff, Option.pure_def,
      Option.some.injEq] at h
    obtain ⟨_, _, _, _, rfl⟩ := h
    exact ⟨_, rfl⟩
  | rowId =>
    cases h
    exact ⟨_, rfl⟩

theorem cell?_numeric_of_lt {name : String} {type : ElementType} {values : Array type.Elem}
    {hidden ordered : Bool} (h : row < values.size) :
    (numeric name type values hidden ordered).cell? row = some (type.cell values[row]) := by
  simp only [cell?, Array.getElem?_eq_getElem h, Option.map_some]

theorem isSome_asFloat? {c : Column} (hn : c.isNumeric = true) (hx : c.cell? row = some x) :
    x.asFloat?.isSome = true := by
  have h := cell?_cases hx
  cases c with
  | numeric name type values =>
    obtain ⟨v, _, rfl⟩ := h
    cases type <;> rfl
  | text => cases hn
  | endTime =>
    obtain ⟨i, rfl⟩ := h
    rfl
  | rowId =>
    obtain ⟨i, rfl⟩ := h
    rfl

end Column

end Columnar
