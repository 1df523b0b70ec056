import Columnar.Column.Basic

/-! # Bounds of sorted columns

In a sorted number column the rows that meet a comparison are contiguous. Their range is found by
two binary searches, one for each end, and answers the comparison in full. A comparison that every
element of the type meets narrows nothing.
-/

namespace Columnar

/--
The end of the leading run of elements between `lo` and `hi` that satisfy `p`, found by binary
search. The elements that satisfy `p` come first.
-/
def partitionPoint {α : Type} (xs : Array α) (p : α → Bool) (lo hi : Nat) (h : hi ≤ xs.size) :
    Nat :=
  if hlt : lo < hi then
    if p xs[lo + (hi - lo) / 2] then partitionPoint xs p (lo + (hi - lo) / 2 + 1) hi h
    else partitionPoint xs p lo (lo + (hi - lo) / 2) (by omega)
  else lo
termination_by hi - lo

/-- Whether a cell meets a part of a comparison, which it does if there is none. -/
def Cell.meets (c : Cell) (part : Option Operator) (literal : Value) : Bool :=
  part.all (c.satisfies · literal)

namespace ElementType

/--
The lower part of a comparison. An inclusive one that the least element already meets says nothing.
-/
def lowerPart? (type : ElementType) (op : Operator) (literal : Value) : Option Operator :=
  op.lowerPart?.filter fun part =>
    !(part == .ge && (type.cell type.least).satisfies part literal)

/--
The upper part of a comparison. An inclusive one that the greatest element already meets says
nothing.
-/
def upperPart? (type : ElementType) (op : Operator) (literal : Value) : Option Operator :=
  op.upperPart?.filter fun part =>
    !(part == .le && (type.cell type.greatest).satisfies part literal)

/-- The bounds of a constraint on ascending values. -/
def sortedBounds (type : ElementType) (values : Array type.Elem) (op : Operator)
    (literal : Value) : Bounds :=
  let lower := type.lowerPart? op literal
  let upper := type.upperPart? op literal
  if !literal.isNumeric || (lower.isNone && upper.isNone) then .full (rowLength values.size)
  else
    let first := partitionPoint values (fun v => !(type.cell v).meets lower literal) 0 values.size
      (Nat.le_refl _)
    let last := partitionPoint values (fun v => (type.cell v).meets upper literal) first values.size
      (Nat.le_refl _)
    { lo := rowLength first, hi := rowLength last, consumed := true }

end ElementType

/-- A range of rows that holds every row able to meet a constraint on the column. -/
def Column.bounds (c : Column) (op : Operator) (literal : Value) : Bounds :=
  match c with
  | .numeric _ type values _ true => type.sortedBounds values op literal
  | c => (c.rowCount?.map Bounds.full).getD .unlimited

end Columnar
