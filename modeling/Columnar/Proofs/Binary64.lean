import Columnar.Binary64.Basic

/-! # Order and rounding of doubles

Numbers compare through their keys, and both infinities lie beyond all finite keys. Rounding an
integer to a double keeps the order and never yields NaN.
-/

namespace Columnar.Binary64

theorem toNat_ofMagnitude {negative : Bool} {m : Nat} (h : m < signWeight) :
    (ofMagnitude negative m).bits.toNat = if negative then signWeight + m else m := by
  unfold signWeight at *
  simp only [ofMagnitude, signWeight, UInt64.toNat_ofNat']
  split <;> omega

theorem magnitude_ofMagnitude {negative : Bool} {m : Nat} (h : m < signWeight) :
    (ofMagnitude negative m).magnitude = m := by
  rw [magnitude, toNat_ofMagnitude h]
  cases negative
  · exact Nat.mod_eq_of_lt h
  · simp only [if_true, Nat.add_mod_left, Nat.mod_eq_of_lt h]

theorem isNegative_ofMagnitude {negative : Bool} {m : Nat} (h : m < signWeight) :
    (ofMagnitude negative m).isNegative = negative := by
  rw [isNegative, toNat_ofMagnitude h]
  cases negative <;> simp
  exact h

theorem key_ofMagnitude {negative : Bool} {m : Nat} (h : m < signWeight) :
    (ofMagnitude negative m).key = if negative then -(m : Int) else m := by
  rw [key, isNegative_ofMagnitude h, magnitude_ofMagnitude h]

theorem isNaN_ofMagnitude {negative : Bool} {m : Nat} (h : m ≤ infinityWord) :
    (ofMagnitude negative m).isNaN = false := by
  have hm : m < signWeight := Nat.lt_of_le_of_lt h (by decide)
  simp only [isNaN, magnitude_ofMagnitude hm, decide_eq_false_iff_not, Nat.not_lt, h]

/-! ## Numbers and infinities -/

theorem magnitude_le_of_not_isNaN {x : Binary64} (h : x.isNaN = false) :
    x.magnitude ≤ infinityWord := by
  simpa only [isNaN, decide_eq_false_iff_not, Nat.not_lt] using h

theorem key_bounds {x : Binary64} (h : x.isNaN = false) :
    -(infinityWord : Int) ≤ x.key ∧ x.key ≤ infinityWord := by
  have hm := magnitude_le_of_not_isNaN h
  unfold key
  split <;> omega

theorem key_least : least.key = -(infinityWord - 1 : Nat) :=
  key_ofMagnitude (by decide)

theorem key_greatest : greatest.key = (infinityWord - 1 : Nat) :=
  key_ofMagnitude (by decide)

theorem isNaN_least : least.isNaN = false := isNaN_ofMagnitude (by decide)

theorem isNaN_greatest : greatest.isNaN = false := isNaN_ofMagnitude (by decide)

/-- Only negative infinity is below the least finite double. -/
theorem key_lt_key_least_iff {x : Binary64} (h : x.isNaN = false) :
    x.key < least.key ↔ x.isInfinite = true ∧ x.isNegative = true := by
  have hm := magnitude_le_of_not_isNaN h
  rw [key_least]
  simp only [key, isInfinite, beq_iff_eq, infinityWord, exponentWeight] at *
  cases x.isNegative with
  | false => simp
  | true => simp; omega

/-- Only positive infinity is above the greatest finite double. -/
theorem key_greatest_lt_key_iff {x : Binary64} (h : x.isNaN = false) :
    greatest.key < x.key ↔ x.isInfinite = true ∧ x.isNegative = false := by
  have hm := magnitude_le_of_not_isNaN h
  rw [key_greatest]
  simp only [key, isInfinite, beq_iff_eq, infinityWord, exponentWeight] at *
  cases x.isNegative with
  | false => simp; omega
  | true => simp

theorem eq_of_key_eq {x y : Binary64} (h : x.key = y.key) (h0 : x.key ≠ 0) : x = y := by
  have hx := x.bits.toNat_lt
  have hy := y.bits.toNat_lt
  have he : x.bits.toNat = y.bits.toNat := by
    simp only [key, isNegative, magnitude, signWeight] at h h0
    by_cases hnx : 0x8000000000000000 ≤ x.bits.toNat <;>
      by_cases hny : 0x8000000000000000 ≤ y.bits.toNat <;>
      simp only [hnx, hny, decide_true, decide_false, if_true, Bool.false_eq_true, if_false]
        at h h0 <;>
      omega
  cases x; cases y
  simpa only [mk.injEq, UInt64.toNat_inj] using he

/-! ## Rounding integers -/

theorem divRound_mono {n m : Nat} (d : Nat) (h : n ≤ m) : divRound n d ≤ divRound m d := by
  have hq : n / d ≤ m / d := Nat.div_le_div_right h
  rcases Nat.lt_or_eq_of_le hq with hlt | heq
  · unfold divRound
    split <;> split <;> omega
  · have hn := Nat.div_add_mod n d
    have hm := Nat.div_add_mod m d
    rw [heq] at hn
    have hr : n % d ≤ m % d := by omega
    unfold divRound
    rw [heq]
    split <;> split <;> omega

theorem le_divRound (n d : Nat) : n / d ≤ divRound n d := by
  unfold divRound
  split <;> omega

theorem divRound_le (n d : Nat) : divRound n d ≤ n / d + 1 := by
  unfold divRound
  split <;> omega

/-- The significand of an integer, with the leading bit and rounded to 53 bits. -/
def roundedSignificand (n : Nat) : Nat :=
  if n.log2 ≤ 52 then n * Nat.pow 2 (52 - n.log2) else divRound n (Nat.pow 2 (n.log2 - 52))

theorem roundMagnitude_eq {n : Nat} (h : n ≠ 0) :
    roundMagnitude n =
      min ((n.log2 + 1022) * exponentWeight + roundedSignificand n) infinityWord := by
  simp only [roundMagnitude, if_neg h, roundedSignificand]

theorem exponentWeight_eq : exponentWeight = Nat.pow 2 52 := by decide

theorem roundedSignificand_bounds {n : Nat} (h : n ≠ 0) :
    exponentWeight ≤ roundedSignificand n ∧ roundedSignificand n ≤ 2 * exponentWeight := by
  have hle : Nat.pow 2 n.log2 ≤ n := Nat.log2_self_le h
  have hlt : n < Nat.pow 2 (n.log2 + 1) := Nat.lt_log2_self
  rw [roundedSignificand, exponentWeight_eq]
  split
  case isTrue hk =>
    have hp : Nat.pow 2 n.log2 * Nat.pow 2 (52 - n.log2) = Nat.pow 2 52 := by
      rw [Nat.pow_eq, Nat.pow_eq, ← Nat.pow_add, Nat.add_sub_cancel' hk, Nat.pow_eq]
    rw [Nat.pow_eq, Nat.pow_succ, ← Nat.pow_eq] at hlt
    constructor
    · rw [← hp]
      exact Nat.mul_le_mul_right _ hle
    · rw [← hp, ← Nat.mul_assoc, Nat.mul_comm 2]
      exact Nat.mul_le_mul_right _ (Nat.le_of_lt hlt)
  case isFalse hk =>
    have hp : Nat.pow 2 n.log2 = Nat.pow 2 52 * Nat.pow 2 (n.log2 - 52) := by
      rw [Nat.pow_eq, Nat.pow_eq, Nat.pow_eq, ← Nat.pow_add, Nat.add_sub_cancel' (by omega)]
    have hpos : 0 < Nat.pow 2 (n.log2 - 52) := Nat.pow_pos (by decide)
    rw [Nat.pow_eq, Nat.pow_succ, ← Nat.pow_eq, hp, Nat.mul_right_comm] at hlt
    rw [hp] at hle
    constructor
    · exact Nat.le_trans ((Nat.le_div_iff_mul_le hpos).mpr hle) (le_divRound _ _)
    · have hd := (Nat.div_lt_iff_lt_mul hpos).mpr hlt
      have := divRound_le n (Nat.pow 2 (n.log2 - 52))
      omega

theorem roundMagnitude_mono {n m : Nat} (h : n ≤ m) : roundMagnitude n ≤ roundMagnitude m := by
  by_cases hn : n = 0
  · simp only [hn, roundMagnitude, if_true, Nat.zero_le]
  have hm : m ≠ 0 := by omega
  obtain ⟨_, hsn⟩ := roundedSignificand_bounds hn
  obtain ⟨hsm, _⟩ := roundedSignificand_bounds hm
  have hk : n.log2 ≤ m.log2 := (Nat.le_log2 hm).mpr (Nat.le_trans (Nat.log2_self_le hn) h)
  have hs : (n.log2 + 1022) * exponentWeight + roundedSignificand n ≤
      (m.log2 + 1022) * exponentWeight + roundedSignificand m := by
    rcases Nat.lt_or_eq_of_le hk with hlt | heq
    · have hw := Nat.mul_le_mul_right exponentWeight (show n.log2 + 1023 ≤ m.log2 + 1022 by omega)
      rw [Nat.add_mul] at hw ⊢
      omega
    · rw [heq]
      refine Nat.add_le_add_left ?_ _
      unfold roundedSignificand
      rw [heq]
      split
      · exact Nat.mul_le_mul_right _ h
      · exact divRound_mono _ h
  rw [roundMagnitude_eq hn, roundMagnitude_eq hm]
  exact Nat.le_min.mpr ⟨Nat.le_trans (Nat.min_le_left _ _) hs, Nat.min_le_right _ _⟩

theorem roundMagnitude_le (n : Nat) : roundMagnitude n ≤ infinityWord := by
  by_cases hn : n = 0
  · simp only [hn, roundMagnitude, if_true, Nat.zero_le]
  · rw [roundMagnitude_eq hn]
    exact Nat.min_le_right _ _

theorem roundMagnitude_lt (n : Nat) : roundMagnitude n < signWeight :=
  Nat.lt_of_le_of_lt (roundMagnitude_le n) (by decide)

theorem isNaN_ofInt (i : Int) : (ofInt i).isNaN = false :=
  isNaN_ofMagnitude (roundMagnitude_le _)

theorem key_ofInt (i : Int) :
    (ofInt i).key =
      if i < 0 then -(roundMagnitude i.natAbs : Int) else roundMagnitude i.natAbs := by
  rw [ofInt, key_ofMagnitude (roundMagnitude_lt _)]
  simp only [decide_eq_true_eq]

theorem key_ofInt_mono {i j : Int} (h : i ≤ j) : (ofInt i).key ≤ (ofInt j).key := by
  rw [key_ofInt, key_ofInt]
  split <;> split
  · have := roundMagnitude_mono (show j.natAbs ≤ i.natAbs by omega)
    omega
  · omega
  · omega
  · have := roundMagnitude_mono (show i.natAbs ≤ j.natAbs by omega)
    omega

end Columnar.Binary64
