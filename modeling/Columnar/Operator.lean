/-! # Constraint operators

An operator of a WHERE constraint relates a stored value, on its left, to a literal. How the two
stand to each other is an `Option Ordering`, absent when they are incomparable, and `holds` says
which standings an operator accepts.
-/

namespace Columnar

inductive Operator where
  | eq
  | ne
  | lt
  | le
  | gt
  | ge
  | isNull
  | isNotNull
  | glob
  | like
  /-- An operator of the SQL engine that scans pass through without a meaning. -/
  | other (code : UInt8)
  deriving DecidableEq

namespace Operator

/-- The operator with the given code in the SQL engine's numbering of index constraints. -/
def ofCode (code : UInt8) : Operator :=
  match code.toNat with
  | 2 => .eq
  | 4 => .gt
  | 8 => .le
  | 16 => .lt
  | 32 => .ge
  | 65 => .like
  | 66 => .glob
  | 68 => .ne
  | 70 => .isNotNull
  | 71 => .isNull
  | _ => .other code

def isLowerBound : Operator → Bool
  | .gt | .ge => true
  | _ => false

def isUpperBound : Operator → Bool
  | .lt | .le => true
  | _ => false

/-- Whether a sorted column can answer the operator by a range of rows. -/
def isNarrowing (op : Operator) : Bool := op == .eq || op.isLowerBound || op.isUpperBound

/--
Whether the operator accepts a stored value that stands to the literal as given. An incomparable
pair differs and satisfies no other comparison. Stored values are never null, so IS NOT NULL always
holds, and patterns and opaque operators match nothing.
-/
def holds : Operator → Option Ordering → Bool
  | .eq, standing => standing == some .eq
  | .ne, standing => standing != some .eq
  | .lt, standing => standing == some .lt
  | .le, standing => standing == some .lt || standing == some .eq
  | .gt, standing => standing == some .gt
  | .ge, standing => standing == some .gt || standing == some .eq
  | .isNotNull, _ => true
  | .isNull, _ | .glob, _ | .like, _ | .other _, _ => false

/-- The part of a comparison that bounds the stored value from below. -/
def lowerPart? : Operator → Option Operator
  | .gt => some .gt
  | .ge | .eq => some .ge
  | _ => none

/-- The part of a comparison that bounds the stored value from above. -/
def upperPart? : Operator → Option Operator
  | .lt => some .lt
  | .le | .eq => some .le
  | _ => none

/-- The spelling in log lines, where all opaque operators look alike. -/
def symbol : Operator → String
  | .eq => "="
  | .ne => "!="
  | .lt => "<"
  | .le => "<="
  | .gt => ">"
  | .ge => ">="
  | .isNull => "IS NULL"
  | .isNotNull => "IS NOT NULL"
  | .glob => "GLOB"
  | .like => "LIKE"
  | .other _ => "OTHER"

/-- The full spelling, which shows the code of an opaque operator. -/
def toText : Operator → String
  | .other code => "OTHER(" ++ Nat.repr code.toNat ++ ")"
  | op => op.symbol

theorem isNarrowing_iff (op : Operator) :
    op.isNarrowing = true ↔ op.lowerPart?.isSome = true ∨ op.upperPart?.isSome = true := by
  cases op <;> simp [isNarrowing, isLowerBound, isUpperBound, lowerPart?, upperPart?]

theorem holds_iff_parts {op : Operator} (h : op.isNarrowing = true) (standing : Option Ordering) :
    op.holds standing = true ↔
      (∀ part ∈ op.lowerPart?, part.holds standing = true) ∧
        ∀ part ∈ op.upperPart?, part.holds standing = true := by
  rcases standing with _ | standing
  · cases op <;> simp_all [isNarrowing, isLowerBound, isUpperBound, holds, lowerPart?, upperPart?]
  · cases op <;> cases standing <;>
      simp_all [isNarrowing, isLowerBound, isUpperBound, holds, lowerPart?, upperPart?]

end Operator

end Columnar
