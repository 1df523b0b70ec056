/-! # Candidate rows

The working set of a scan: the rows of a half-open range that no constraint has excluded so far. A
new set is its whole range and costs nothing to hold; filtering turns it into one flag per row, and
intersection with given rows turns it into a list. `toList` is the view that all forms share.
-/

namespace Columnar

/-- The forms in which the candidates among the rows `start ≤ row < stop` are held. -/
inductive Candidates.Form (start stop : Nat) where
  | all
  | flags (flags : Vector Bool (stop - start))
  | listed (rows : List Nat)
  deriving DecidableEq

/-- A set of candidate rows within a range. -/
structure Candidates where
  start : Nat
  stop : Nat
  start_le_stop : start ≤ stop
  form : Candidates.Form start stop
  deriving DecidableEq

namespace Candidates

/-- All rows from `start` up to `stop`; none if the range is inverted. -/
def ofRange (start stop : Nat) : Candidates where
  start
  stop := max stop start
  start_le_stop := Nat.le_max_right stop start
  form := .all

/-- Whether the row lies in the range, excluded or not. -/
def inRange (c : Candidates) (row : Nat) : Bool := decide (c.start ≤ row) && decide (row < c.stop)

/-- The rows of the range, excluded ones too. -/
def range (c : Candidates) : List Nat := List.range' c.start (c.stop - c.start)

def contains (c : Candidates) (row : Nat) : Bool :=
  match c.form with
  | .all => c.inRange row
  | .flags flags => if h : c.start ≤ row ∧ row < c.stop then flags[row - c.start] else false
  | .listed rows => c.inRange row && rows.contains row

/-- The candidates in ascending order, as long as every list given to `intersect` ascended. -/
def toList (c : Candidates) : List Nat :=
  match c.form with
  | .all => c.range
  | .flags _ => c.range.filter c.contains
  | .listed rows => rows

/--
The number of candidates. A list that repeats its rows may have `UInt32.size` of them or more, where
a count in 32 bits would lose its upper bits; rows of 32 bits that are listed once are fewer.
-/
def count (c : Candidates) : Nat :=
  match c.form with
  | .all => c.stop - c.start
  | .flags flags => flags.count true
  | .listed rows => rows.length

def isEmpty (c : Candidates) : Bool := c.count == 0

section Monadic

variable {m : Type → Type} [Monad m]

/-- The elements that satisfy an effectful predicate, which runs once on each, in order. -/
def keepM (p : Nat → m Bool) : List Nat → m (List Nat)
  | [] => pure []
  | row :: rows => do
    let keep ← p row
    let kept ← keepM p rows
    return if keep then row :: kept else kept

/-- Keeps the candidates that satisfy an effectful predicate, which runs once on each, in order. -/
def filterM (p : Nat → m Bool) (c : Candidates) : m Candidates :=
  match c.form with
  | .listed rows => do
    let kept ← keepM p rows
    return { c with form := .listed kept }
  | _ => do
    let flags ← (Vector.range' c.start (c.stop - c.start)).mapM fun row =>
      if c.contains row then p row else pure false
    return { c with form := .flags flags }

end Monadic

def filter (p : Nat → Bool) (c : Candidates) : Candidates :=
  (c.filterM fun row => (pure (p row) : Id Bool)).run

/--
Keeps the candidates that satisfy a predicate that some rows may leave undefined, and says whether
it was defined on all of them. At the first candidate without an answer the pass stops: that row and
the later ones stay candidates, and a set that was still its whole range stays as it was.
-/
def filterDefined (p : Nat → Option Bool) (c : Candidates) : Candidates × Bool :=
  match c.form with
  | .all =>
    if Nat.all (c.stop - c.start) fun i _ => (p (c.start + i)).isSome then
      (c.filter (p · == some true), true)
    else (c, false)
  | _ =>
    let step (row : Nat) : StateM Bool Bool := fun defined =>
      match if defined then p row else none with
      | some keep => (keep, true)
      | none => (true, false)
    (c.filterM step).run true

/--
The elements of the second list that the first one holds, found in one pass over both. Either list
ascends; an element that the second list repeats is found as often.
-/
def common (existing : List Nat) : List Nat → List Nat
  | [] => []
  | row :: rows =>
    let rest := existing.dropWhile fun r => decide (r < row)
    if rest.head? = some row then row :: common rest rows else common rest rows

/-- Keeps the candidates among the given ascending rows. Rows outside the range are ignored. -/
def intersect (rows : List Nat) (c : Candidates) : Candidates :=
  let given := rows.filter c.inRange
  let kept :=
    match c.form with
    | .all => given
    | .flags _ => given.filter c.contains
    | .listed existing => common existing given
  { c with form := .listed kept }

@[simp] theorem toList_ofRange (start stop : Nat) :
    (ofRange start stop).toList = List.range' start (stop - start) := by
  simp only [toList, ofRange, range]
  congr 1
  omega

theorem inRange_iff {c : Candidates} {row : Nat} :
    c.inRange row = true ↔ c.start ≤ row ∧ row < c.stop := by
  simp only [inRange, Bool.and_eq_true, decide_eq_true_eq]

theorem contains_ofRange_iff {start stop row : Nat} :
    (ofRange start stop).contains row = true ↔ start ≤ row ∧ row < stop := by
  have h : (ofRange start stop).contains row = (ofRange start stop).inRange row := rfl
  rw [h, inRange_iff]
  simp only [ofRange]
  omega

end Candidates

end Columnar
