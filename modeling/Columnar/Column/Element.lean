import Columnar.Column.Cell

/-! # Element types

A number column stores elements of one type, which fixes how they are declared in SQL, compared and
reported. All of that goes through the cell of an element.
-/

namespace Columnar

inductive ColumnType where
  | int
  | uint
  | long
  | ulong
  | double
  | string
  deriving DecidableEq

def ColumnType.name : ColumnType → String
  | .int => "INT"
  | .uint => "UNSIGNED INT"
  | .long => "BIG INT"
  | .ulong => "UNSIGNED BIG INT"
  | .double => "DOUBLE"
  | .string => "STRING"

inductive ElementType where
  | integer (type : IntType)
  | double
  deriving DecidableEq

namespace ElementType

def Elem : ElementType → Type
  | .integer type => type.Elem
  | .double => Binary64

/-- Whether integer literals compare exactly with elements of the type. -/
def isIntegral : ElementType → Bool
  | .integer _ => true
  | .double => false

def columnType : ElementType → ColumnType
  | .integer .int8 | .integer .int32 => .int
  | .integer .uint8 | .integer .uint32 => .uint
  | .integer .int64 => .long
  | .integer .uint64 => .ulong
  | .double => .double

def cell : (type : ElementType) → type.Elem → Cell
  | .integer _, value => .integer value.val
  | .double, value => .float value

/-- The least element; infinity and NaN do not count. -/
def least : (type : ElementType) → type.Elem
  | .integer type => ⟨type.least, Int.le_refl _, type.least_le_greatest⟩
  | .double => Binary64.least

/-- The greatest element; infinity and NaN do not count. -/
def greatest : (type : ElementType) → type.Elem
  | .integer type => ⟨type.greatest, type.least_le_greatest, Int.le_refl _⟩
  | .double => Binary64.greatest

end ElementType

end Columnar
