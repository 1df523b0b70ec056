import Mathlib.Order.WithBot
import Columnar.Proofs.Binary64.Number
import Columnar.Proofs.Column.Order

/-! # The order of reported values

Cells are sorted in one form and reported in another: an integer beyond 64 signed bits becomes a
double, and empty text becomes null. Reported values have an order of their own, in which numbers
stand as the numbers they are, and cells in order are reported in order.
-/

namespace Columnar

namespace Value

/-- Where a value stands among all numbers. NaN stands after them. -/
def number? : Value → Option (WithTop ℚ)
  | .integer n => some (n.toInt : ℚ)
  | .float x => some (if x.isNaN then ⊤ else x.toRat)
  | .text _ | .null => none

/-- The ascending order of reported values, in which numbers and text do not mix. -/
inductive AtMost : Value → Value → Prop where
  | null : AtMost .null .null
  /-- Null comes before all text. -/
  | null_text {b : String} : AtMost .null (.text b)
  /-- Text is ordered by its bytes. -/
  | text {a b : String} : a.toByteArray.data.toList ≤ b.toByteArray.data.toList →
      AtMost (.text a) (.text b)
  | number {v w : Value} {p q : WithTop ℚ} : v.number? = some p → w.number? = some q → p ≤ q →
      AtMost v w

end Value

namespace Cell

variable {x y : Cell} {a b : Int} {n : Int64}

/-! ## Reported cells -/

theorem isNumeric_report (h : x.asFloat?.isSome = true) : x.report.isNumeric = true := by
  cases x with
  | integer a =>
    simp only [report]
    split <;> rfl
  | float a => rfl
  | text a => cases h

theorem admits_iff {a : Int} : IntType.int64.admits a = true ↔
    -0x8000000000000000 ≤ a ∧ a ≤ 0x7fffffffffffffff := by
  simp only [IntType.admits, Bool.and_eq_true, decide_eq_true_eq]
  rfl

theorem report_eq_integer_iff : x.report = .integer n ↔ x = .integer n.toInt := by
  constructor
  · intro h
    cases x with
    | integer a =>
      simp only [report] at h
      split at h
      case isTrue ha =>
        obtain ⟨hlo, hhi⟩ := admits_iff.mp ha
        cases h
        rw [Int64.toInt_ofInt_of_le hlo (by omega)]
      case isFalse => cases h
    | float a => cases h
    | text a =>
      simp only [report] at h
      split at h <;> cases h
  · rintro rfl
    have hlo := n.minValue_le_toInt
    have hhi := n.toInt_le
    have ha : IntType.int64.admits n.toInt = true := admits_iff.mpr ⟨hlo, hhi⟩
    rw [report, if_pos ha, Int64.ofInt_toInt]

/-- Of the integers that do not lie below 64 signed bits, those beyond them are rounded. -/
theorem number?_report_integer (h : IntType.int64.least ≤ a) :
    a ≤ IntType.int64.greatest ∧ (integer a).report.number? = some ((a : ℚ) : WithTop ℚ) ∧
        (integer a).report.kind = .integer ∨
      IntType.int64.greatest < a ∧
        (integer a).report.number? = some ((Binary64.ofInt a).toRat : WithTop ℚ) ∧
        (integer a).report.kind = .float := by
  rw [report]
  split
  · rename_i ha
    obtain ⟨hlo, hhi⟩ := admits_iff.mp ha
    refine .inl ⟨hhi, ?_, rfl⟩
    rw [Value.number?, Int64.toInt_ofInt_of_le hlo (by omega)]
  · rename_i ha
    rw [admits_iff, not_and, Int.not_le] at ha
    refine .inr ⟨ha h, ?_, rfl⟩
    rw [Value.number?, Binary64.isNaN_ofInt, if_neg Bool.false_ne_true]

theorem report_integer_atMost (ha : IntType.int64.least ≤ a) (hab : a ≤ b) :
    (integer a).report.AtMost (integer b).report := by
  have hlimit (hb : IntType.int64.greatest < b) :
      (0x8000000000000000 : ℚ) ≤ (Binary64.ofInt b).toRat := by
    rw [← Binary64.toRat_ofInt_limit]
    apply Binary64.toRat_ofInt_mono
    rw [IntType.greatest] at hb
    omega
  rcases number?_report_integer ha with ⟨hle, hp, -⟩ | ⟨hlt, hp, -⟩ <;>
    rcases number?_report_integer (Int.le_trans ha hab) with ⟨hle', hq, -⟩ | ⟨hlt', hq, -⟩ <;>
    refine .number hp hq (WithTop.coe_le_coe.mpr ?_)
  · exact_mod_cast hab
  · refine le_trans ?_ (hlimit hlt')
    have hle : a ≤ 0x8000000000000000 := Int.le_trans hle (by decide)
    exact_mod_cast hle
  · exact absurd (Int.lt_of_lt_of_le hlt hab) (Int.not_lt.mpr hle')
  · exact Binary64.toRat_ofInt_mono hab

theorem report_float_atMost {a b : Binary64} (h : (a.sortCompare b).isLE = true) :
    (float a).report.AtMost (float b).report := by
  refine .number rfl rfl ?_
  rw [Binary64.sortCompare] at h
  cases ha : a.isNaN <;> cases hb : b.isNaN <;>
    simp only [ha, hb, if_true, Bool.false_eq_true, if_false, le_top, le_rfl] at h ⊢
  · rw [WithTop.coe_le_coe, Binary64.toRat_le_toRat_iff, ← Std.isLE_compare]
    exact h
  · cases h

theorem report_text_atMost {a b : String} (h : (Text.compare a b).isLE = true) :
    (text a).report.AtMost (text b).report := by
  rw [report, report]
  split <;> split
  · exact .null
  · exact .null_text
  · rename_i ha hb
    -- Nothing but empty text comes before empty text.
    rw [String.isEmpty_iff] at ha hb
    subst hb
    have hge : (Text.compare "" a).isLE = true := Text.isLE_compare_iff.mpr (List.nil_le _)
    exact absurd (Text.compare_eq_eq_iff.mp (Std.OrientedCmp.isLE_antisymm h hge)) ha
  · exact .text (Text.isLE_compare_iff.mp h)

end Cell

namespace Column

variable {c : Column} {row : Nat} {a : Int}

theorem least_le_of_cell? (h : c.cell? row = some (.integer a)) : IntType.int64.least ≤ a := by
  cases c with
  | numeric name type values =>
    obtain ⟨v, -, hv⟩ := cell?_cases h
    cases type with
    | integer type =>
      obtain rfl := Cell.integer.inj hv
      have hleast : IntType.int64.least ≤ type.least := by cases type <;> decide
      exact Int.le_trans hleast v.property.1
    | double => cases hv
  | text =>
    obtain ⟨s, hs⟩ := cell?_cases h
    cases hs
  | endTime =>
    simp only [cell?, Option.bind_eq_bind, Option.bind_eq_some_iff, Option.pure_def,
      Option.some.injEq, Cell.integer.injEq] at h
    obtain ⟨_, _, _, _, rfl⟩ := h
    exact Int.le_max_left _ _
  | rowId =>
    cases h
    exact Int.le_trans (by decide) (Int.natCast_nonneg _)

/-- Cells of a column that are in order are reported in order, and integers before doubles. -/
theorem report_atMost {x y : Cell} {b : Nat} (hx : c.cell? row = some x) (hy : c.cell? b = some y)
    (h : (x.sortCompare y).isLE = true) :
    x.report.AtMost y.report ∧ (x.report.kind = .float → y.report.kind ≠ .integer) := by
  have hrank := rank_eq hx hy
  cases x <;> cases y <;> cases hrank
  case integer.refl a b =>
    have hab : a ≤ b := Std.isLE_compare.mp h
    have ha := least_le_of_cell? hx
    refine ⟨Cell.report_integer_atMost ha hab, fun hkind => ?_⟩
    rcases Cell.number?_report_integer ha with ⟨-, -, hk⟩ | ⟨hlt, -, -⟩
    · rw [hk] at hkind
      cases hkind
    · rcases Cell.number?_report_integer (Int.le_trans ha hab) with ⟨hle, -, -⟩ | ⟨-, -, hk⟩
      · exact absurd (Int.lt_of_lt_of_le hlt hab) (Int.not_lt.mpr hle)
      · rw [hk]
        exact ValueKind.noConfusion
  case float.refl a b =>
    exact ⟨Cell.report_float_atMost h, fun _ => ValueKind.noConfusion⟩
  case text.refl a b =>
    refine ⟨Cell.report_text_atMost h, fun _ => ?_⟩
    rw [Cell.report]
    split <;> exact ValueKind.noConfusion

/-- Whether the sum of start and duration at a row does not lie within a limit of 64 signed bits. -/
def SaturatesAt (limit : Int) : Column → Nat → Prop
  | endTime _ starts durations, row => ∃ start ∈ starts[row]?, ∃ duration ∈ durations[row]?,
      limit = IntType.int64.least ∧ start.toInt + duration.toInt ≤ limit ∨
        limit = IntType.int64.greatest ∧ limit ≤ start.toInt + duration.toInt
  | _, _ => False

theorem cell?_of_saturatesAt {limit : Int} (h : c.SaturatesAt limit row) :
    c.cell? row = some (.integer limit) := by
  cases c with
  | endTime name starts durations =>
    obtain ⟨start, hstart, duration, hduration, hlimit⟩ := h
    rw [Option.mem_def] at hstart hduration
    simp only [cell?, hstart, hduration, Option.bind_eq_bind, Option.bind_some, Option.pure_def,
      IntType.clamp]
    have hle := IntType.int64.least_le_greatest
    congr 2
    omega
  | numeric => cases h
  | text => cases h
  | rowId => cases h

end Column

end Columnar
