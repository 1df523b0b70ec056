import Columnar.Column.Basic

/-! # Sorting rows

Rows are sorted by a chain of keys, each a column with a direction. The first key that separates two
rows decides, and rows that no key separates keep their order.
-/

namespace Columnar

structure SortKey where
  column : Column
  descending : Bool

namespace SortKey

def directed (k : SortKey) (order : Ordering) : Ordering :=
  if k.descending then order.swap else order

/-- The order of two rows under one key; undefined past the end of the data. -/
def compare? (k : SortKey) (a b : Nat) : Option Ordering := do
  let x ← k.column.cell? a
  let y ← k.column.cell? b
  return k.directed (x.sortCompare y)

/-- The order of two rows under one key, rows without a cell first. -/
def compare (k : SortKey) (a b : Nat) : Ordering :=
  match k.column.cell? a, k.column.cell? b with
  | some x, some y => k.directed (x.sortCompare y)
  | none, none => .eq
  | none, some _ => .lt
  | some _, none => .gt

end SortKey

namespace RowOrder

/--
The order of two rows under a chain of keys. Later keys are read only if all earlier ones tie, and
it is undefined if a key is read that has no cell.
-/
def compare? : List SortKey → Nat → Nat → Option Ordering
  | [], _, _ => some .eq
  | k :: keys, a, b =>
    match k.compare? a b with
    | some .eq => compare? keys a b
    | decided => decided

/-- The order of two rows under a chain of keys, rows without a cell first. -/
def compare : List SortKey → Nat → Nat → Ordering
  | [], _, _ => .eq
  | k :: keys, a, b => (k.compare a b).then (compare keys a b)

/-- The rows in the order of the keys; the sort is stable. -/
def arrange (keys : List SortKey) (rows : List Nat) : List Nat :=
  rows.mergeSort fun a b => (compare keys a b).isLE

/-- Whether every row can be compared with the next one. -/
def comparable (keys : List SortKey) : List Nat → Bool
  | a :: b :: rows => (compare? keys a b).isSome && comparable keys (b :: rows)
  | _ => true

/--
Sorts rows by the keys, or fails if that needs a cell past the end of the data. Neighbours in the
result are exactly the pairs that no sort can leave uncompared.
-/
def sort? (keys : List SortKey) (rows : List Nat) : Option (List Nat) :=
  let arranged := arrange keys rows
  if comparable keys arranged then some arranged else none

end RowOrder

end Columnar
