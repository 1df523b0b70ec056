import Mathlib.Algebra.Order.Field.Power
import Mathlib.Data.Rat.Cast.Order
import Mathlib.Tactic.NormNum
import Mathlib.Tactic.Positivity
import Mathlib.Tactic.Ring
import Columnar.Proofs.Binary64

/-! # The numbers that doubles stand for

A finite double stands for a multiple of two to the -1074th, the least positive one. Keys order
doubles as these numbers are ordered, so rounding keeps the order of integers in this sense too.
-/

namespace Columnar.Binary64

variable {x y : Binary64}

/-- The number that a double stands for. An infinity counts as two to the 1024th. -/
def toRat (x : Binary64) : ℚ :=
  (if x.isNegative then -1 else 1) * (x.significand * 2 ^ x.exponent)

/-- The magnitude of the number in units of two to the -1074th. -/
def units (x : Binary64) : Nat := x.significand * Nat.pow 2 (max x.exponentField 1 - 1)

theorem exponentWeight_le_significand (h : x.exponentField ≠ 0) :
    exponentWeight ≤ x.significand := by
  rw [significand, if_neg h]
  exact Nat.le_add_left _ _

theorem units_lt (x : Binary64) : x.units < exponentWeight * Nat.pow 2 x.exponentField := by
  have hmod : x.magnitude % exponentWeight < exponentWeight := Nat.mod_lt _ (by decide)
  rw [units, significand]
  rcases Nat.eq_zero_or_pos x.exponentField with h | h
  · rw [h, if_pos rfl]
    simpa using hmod
  · obtain ⟨e, he⟩ := Nat.exists_eq_add_one.mpr h
    have hpos : 0 < Nat.pow 2 e := Nat.pow_pos (by decide)
    have hpow : Nat.pow 2 (e + 1) = 2 * Nat.pow 2 e := by rw [Nat.pow_eq, Nat.pow_succ']; rfl
    rw [he, if_neg (Nat.succ_ne_zero e), show max (e + 1) 1 - 1 = e by omega, hpow,
      ← Nat.mul_assoc, Nat.mul_comm exponentWeight]
    exact Nat.mul_lt_mul_of_pos_right (by omega) hpos

theorem units_lt_of_magnitude_lt (h : x.magnitude < y.magnitude) : x.units < y.units := by
  have hle : x.exponentField ≤ y.exponentField := Nat.div_le_div_right (Nat.le_of_lt h)
  rcases Nat.lt_or_eq_of_le hle with hlt | heq
  · calc x.units
      _ < exponentWeight * Nat.pow 2 x.exponentField := x.units_lt
      _ ≤ exponentWeight * Nat.pow 2 (max y.exponentField 1 - 1) :=
        Nat.mul_le_mul_left _ (Nat.pow_le_pow_right (by decide) (by omega))
      _ ≤ y.units := Nat.mul_le_mul_right _ (exponentWeight_le_significand (by omega))
  · have hx : exponentWeight * x.exponentField + x.magnitude % exponentWeight = x.magnitude :=
      Nat.div_add_mod _ _
    have hy : exponentWeight * y.exponentField + y.magnitude % exponentWeight = y.magnitude :=
      Nat.div_add_mod _ _
    rw [heq] at hx
    rw [units, units, significand, significand, heq]
    exact Nat.mul_lt_mul_of_pos_right (by omega) (Nat.pow_pos (by decide))

theorem units_eq_of_magnitude_eq (h : x.magnitude = y.magnitude) : x.units = y.units := by
  rw [units, units, significand, significand, exponentField, exponentField, h]

theorem units_lt_units_iff : x.units < y.units ↔ x.magnitude < y.magnitude := by
  constructor
  · intro h
    rcases Nat.lt_trichotomy x.magnitude y.magnitude with hlt | heq | hgt
    · exact hlt
    · exact absurd h (units_eq_of_magnitude_eq heq).not_lt
    · exact absurd h (Nat.lt_asymm (units_lt_of_magnitude_lt hgt))
  · exact units_lt_of_magnitude_lt

theorem units_pos_iff : 0 < x.units ↔ 0 < x.magnitude :=
  units_lt_units_iff (x := ⟨0⟩)

theorem toRat_eq (x : Binary64) :
    x.toRat = ((if x.isNegative then -(x.units : Int) else x.units : Int) : ℚ) / 2 ^ 1074 := by
  have hexp : x.exponent = ((max x.exponentField 1 - 1 : Nat) : Int) - (1074 : Nat) := by
    simp only [exponent]
    omega
  have hpow : (2 : ℚ) ^ x.exponent = 2 ^ (max x.exponentField 1 - 1) / 2 ^ 1074 := by
    rw [hexp, zpow_sub₀ two_ne_zero, zpow_natCast, zpow_natCast]
  rw [toRat, hpow, units]
  -- As a power of two the denominator would be evaluated.
  generalize (2 : ℚ) ^ 1074 = denominator
  split <;> push_cast [Nat.pow_eq] <;> ring

/-- Keys order doubles as the numbers that they stand for. -/
theorem toRat_lt_toRat_iff : x.toRat < y.toRat ↔ x.key < y.key := by
  have hpos : (0 : ℚ) < 2 ^ 1074 := by positivity
  rw [toRat_eq, toRat_eq, div_lt_div_iff_of_pos_right hpos, Int.cast_lt, key, key]
  have hxy := units_lt_units_iff (x := x) (y := y)
  have hyx := units_lt_units_iff (x := y) (y := x)
  have hx := units_pos_iff (x := x)
  have hy := units_pos_iff (x := y)
  cases x.isNegative <;> cases y.isNegative <;>
    simp only [if_true, Bool.false_eq_true, if_false] <;> omega

theorem toRat_le_toRat_iff : x.toRat ≤ y.toRat ↔ x.key ≤ y.key := by
  rw [← not_lt, toRat_lt_toRat_iff, Int.not_lt]

theorem toRat_ofInt_limit : (ofInt 0x8000000000000000).toRat = 0x8000000000000000 := by
  have hsign : (ofInt 0x8000000000000000).isNegative = false := by decide +kernel
  have hsignificand : (ofInt 0x8000000000000000).significand = 0x10000000000000 := by
    decide +kernel
  have hexponent : (ofInt 0x8000000000000000).exponent = 11 := by decide +kernel
  rw [toRat, hsign, hsignificand, hexponent]
  norm_num

theorem toRat_ofInt_mono {i j : Int} (h : i ≤ j) : (ofInt i).toRat ≤ (ofInt j).toRat :=
  toRat_le_toRat_iff.mpr (key_ofInt_mono h)

end Columnar.Binary64
