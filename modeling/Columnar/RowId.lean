/-! # Row ids

A row id names a row of one of several tables in a single 64-bit word: the upper 24 bits are unused,
the next 8 hold the table and the lower 32 the row.
-/

namespace Columnar

structure RowId where
  table : UInt8
  row : UInt32
  deriving DecidableEq

namespace RowId

/-- The position of the table in an encoded id. -/
def tableShift : Nat := 32

def encode (id : RowId) : UInt64 :=
  (id.table.toUInt64 <<< UInt64.ofNat tableShift) ||| id.row.toUInt64

/-- The row id in a word, whose unused bits are dropped. -/
def decode (word : UInt64) : RowId where
  table := (word >>> UInt64.ofNat tableShift).toUInt8
  row := word.toUInt32

theorem toNat_encode (id : RowId) :
    id.encode.toNat = id.table.toNat * 0x100000000 + id.row.toNat := by
  have ht := id.table.toNat_lt
  have hor := Nat.shiftLeft_add_eq_or_of_lt id.row.toNat_lt id.table.toNat
  rw [Nat.shiftLeft_eq] at hor
  have hshift : id.table.toNat * 0x100000000 % 0x10000000000000000 =
      id.table.toNat * 0x100000000 :=
    Nat.mod_eq_of_lt (by omega)
  simp only [encode, UInt64.toNat_or, UInt64.toNat_shiftLeft, UInt8.toNat_toUInt64,
    UInt32.toNat_toUInt64, Nat.shiftLeft_eq]
  exact (congrArg (· ||| id.row.toNat) hshift).trans hor.symm

end RowId

end Columnar
