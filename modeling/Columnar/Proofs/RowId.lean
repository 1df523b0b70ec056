import Columnar.RowId

/-! # Row ids and words

Row ids are the words of 40 bits. Encoding and decoding are inverse to each other on these, and the
words of ids are in the order of table and row. Decoding reads any other word as the one that is
left of it without its unused bits.
-/

namespace Columnar.RowId

theorem toNat_table_decode (word : UInt64) :
    (decode word).table.toNat = word.toNat / 0x100000000 % 0x100 := by
  simp only [decode, tableShift, UInt64.toNat_toUInt8, UInt64.toNat_shiftRight,
    Nat.shiftRight_eq_div_pow]
  rfl

theorem toNat_row_decode (word : UInt64) : (decode word).row.toNat = word.toNat % 0x100000000 := by
  simp only [decode, UInt64.toNat_toUInt32]

theorem eq_iff_toNat {a b : RowId} :
    a = b ↔ a.table.toNat = b.table.toNat ∧ a.row.toNat = b.row.toNat := by
  cases a
  cases b
  simp only [mk.injEq, UInt8.toNat_inj, UInt32.toNat_inj]

theorem decode_encode (id : RowId) : decode id.encode = id := by
  have ht := id.table.toNat_lt
  have hr := id.row.toNat_lt
  rw [eq_iff_toNat, toNat_table_decode, toNat_row_decode, toNat_encode]
  omega

/-- Decoding drops the unused bits of a word, the upper 24, and no others. -/
theorem encode_decode (word : UInt64) : (decode word).encode = word &&& 0xffffffffff := by
  have hmask : (word &&& 0xffffffffff).toNat = word.toNat % 0x10000000000 := by
    rw [UInt64.toNat_and]
    exact Nat.and_two_pow_sub_one_eq_mod word.toNat 40
  rw [← UInt64.toNat_inj, hmask, toNat_encode, toNat_table_decode, toNat_row_decode]
  omega

theorem encode_lt_encode_iff {a b : RowId} :
    a.encode < b.encode ↔ a.table < b.table ∨ a.table = b.table ∧ a.row < b.row := by
  have ha := a.row.toNat_lt
  have hb := b.row.toNat_lt
  rw [UInt64.lt_iff_toNat_lt, toNat_encode, toNat_encode, UInt8.lt_iff_toNat_lt, ← UInt8.toNat_inj,
    UInt32.lt_iff_toNat_lt]
  omega

theorem toNat_toUInt64 {x : Int64} (h : 0 ≤ x.toInt) : (x.toUInt64.toNat : Int) = x.toInt := by
  have hle : 0 ≤ x := Int64.le_iff_toInt_le.mpr h
  rw [Int64.toNat_toUInt64_of_le hle, Int64.cast_toNatClampNeg x hle]

/-- An integer is the word of an id if and only if it uses 40 bits at most and these hold the id. -/
theorem toNat_encode_eq_toInt_iff {id : RowId} {x : Int64} :
    (id.encode.toNat : Int) = x.toInt ↔
      0 ≤ x.toInt ∧ x.toInt < 0x10000000000 ∧ decode x.toUInt64 = id := by
  have hword : 0 ≤ x.toInt → (x.toUInt64.toNat : Int) = x.toInt := toNat_toUInt64
  have ht := id.table.toNat_lt
  have hr := id.row.toNat_lt
  rw [eq_iff_toNat, toNat_table_decode, toNat_row_decode, toNat_encode]
  omega

end Columnar.RowId
