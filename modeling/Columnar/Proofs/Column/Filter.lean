import Columnar.Column.Filter
import Columnar.Proofs.Candidates.Requests
import Columnar.Proofs.Column.Bounds

/-! # Filtering by a column, row by row

A filter by a number column keeps exactly the candidates whose numbers meet the constraint, in
whatever form the candidates are held. A literal that is no number is refused and leaves them as
they are, and so does every constraint on a text column.
-/

namespace Columnar.Column

/--
Whether a constraint holds of the number that a column has at a row: a stored one, the sum of start
and duration held within 64 signed bits, or the table and the row in one word. Text columns leave
constraints to others.
-/
def AcceptsAt (c : Column) (op : Operator) (literal : Value) (row : Nat) : Prop :=
  match c with
  | numeric _ type values _ _ => ∃ v ∈ values[row]?, op.Accepts (type.cell v) literal
  | text .. => True
  | endTime _ starts durations => ∃ start ∈ starts[row]?, ∃ duration ∈ durations[row]?,
      op.Accepts (.integer (max (-0x8000000000000000)
        (min (start.toInt + duration.toInt) 0x7fffffffffffffff))) literal
  | rowId _ table => op.Accepts (.integer (table.toNat * 0x100000000 + row)) literal

instance (op : Operator) (literal : Value) (row : Nat) :
    (c : Column) → Decidable (c.AcceptsAt op literal row)
  | numeric _ type values _ _ =>
    inferInstanceAs (Decidable (∃ v ∈ values[row]?, op.Accepts (type.cell v) literal))
  | text .. => inferInstanceAs (Decidable True)
  | endTime _ starts durations =>
    inferInstanceAs (Decidable (∃ start ∈ starts[row]?, ∃ duration ∈ durations[row]?,
      op.Accepts (.integer (max (-0x8000000000000000)
        (min (start.toInt + duration.toInt) 0x7fffffffffffffff))) literal))
  | rowId _ table =>
    inferInstanceAs (Decidable (op.Accepts (.integer (table.toNat * 0x100000000 + row)) literal))

variable {c : Column} {op : Operator} {literal : Value} {rows : Candidates} {row : Nat}

/-! ## Cells -/

theorem cell?_rowId {name : String} {table : UInt8} (h : (rowId name table).HasRow row) :
    (rowId name table).cell? row = some (.integer (table.toNat * 0x100000000 + row)) := by
  have hlt : row < rowLimit := h.1
  have hrow : (UInt32.ofNat row).toNat = row := by
    rw [UInt32.toNat_ofNat', Nat.mod_eq_of_lt (Nat.lt_trans hlt (by decide))]
  rw [cell?, RowId.toNat_encode, hrow]
  rfl

theorem exists_accepts_iff (h : c.HasRow row) (hn : c.isNumeric = true) :
    (∃ x ∈ c.cell? row, op.Accepts x literal) ↔ c.AcceptsAt op literal row := by
  cases c with
  | numeric name type values => simp [cell?, AcceptsAt]
  | text => cases hn
  | endTime name starts durations =>
    simp only [cell?, AcceptsAt, Option.mem_def, Option.bind_eq_bind, Option.bind_eq_some_iff,
      Option.pure_def, Option.some.injEq]
    constructor
    · rintro ⟨_, ⟨start, hstart, duration, hduration, rfl⟩, haccepts⟩
      exact ⟨start, hstart, duration, hduration, haccepts⟩
    · rintro ⟨start, hstart, duration, hduration, haccepts⟩
      exact ⟨_, ⟨start, hstart, duration, hduration, rfl⟩, haccepts⟩
  | rowId name table => simp [cell?_rowId h, AcceptsAt]

theorem satisfies?_eq_some_true_iff (h : c.HasRow row) (hn : c.isNumeric = true)
    (hl : literal.isNumeric = true) :
    c.satisfies? op literal row = some true ↔ c.AcceptsAt op literal row := by
  rw [← exists_accepts_iff h hn, satisfies?, Option.map_eq_some_iff]
  refine exists_congr fun x => and_congr_right fun hx => ?_
  exact Cell.satisfies_iff (isSome_asFloat? hn hx) hl

theorem isSome_satisfies? (h : c.HasRow row) (hn : c.isNumeric = true) (op : Operator)
    (literal : Value) : (c.satisfies? op literal row).isSome = true := by
  obtain ⟨x, hx⟩ := h.exists_cell hn
  simp only [satisfies?, hx, Option.map_some, Option.isSome_some]

/-! ## Candidates -/

theorem filter_of_not_isNumeric (hn : c.isNumeric = false) :
    c.filter op literal rows = (rows, .complete) := by
  simp only [filter, hn, Bool.not_false, if_true]

theorem filter_refused (hn : c.isNumeric = true) (hl : literal.isNumeric = false) :
    c.filter op literal rows = (rows, .refused ⟨c.name, literal.kind⟩) := by
  simp only [filter, hn, hl, Bool.not_true, Bool.not_false, Bool.false_eq_true, if_false, if_true]

theorem exists_filter (op : Operator) (hn : c.isNumeric = true) (hl : literal.isNumeric = true)
    (hrows : ∀ row ∈ rows.toList, c.HasRow row) :
    ∃ kept, c.filter op literal rows = (kept, .complete) ∧ kept.inRange = rows.inRange ∧
      kept.toList = rows.toList.filter (c.satisfies? op literal · == some true) := by
  obtain ⟨hkept, hdefined⟩ := Candidates.filterDefined_of_isSome fun row hrow =>
    isSome_satisfies? (hrows row hrow) hn op literal
  refine ⟨_, ?_, Candidates.inRange_filterDefined _, hkept⟩
  simp only [filter, hn, hl, Bool.not_true, Bool.false_eq_true, if_false]
  split <;> simp_all

/--
What a filter does to candidates that are rows of the column. It changes nothing on a text column or
when it refuses its literal, and otherwise keeps the candidates that the constraint holds of.
-/
theorem filter_candidates (op : Operator) (literal : Value)
    (hrows : ∀ row ∈ rows.toList, c.HasRow row) :
    (c.isNumeric = false → c.filter op literal rows = (rows, .complete)) ∧
      (c.isNumeric = true → literal.isNumeric = false →
        c.filter op literal rows = (rows, .refused ⟨c.name, literal.kind⟩) ∧
          ContractViolation.code = "COLUMN_INVALID_CONTRACT") ∧
      (c.isNumeric = true → literal.isNumeric = true →
        ∃ kept, c.filter op literal rows = (kept, .complete) ∧
          kept.toList = rows.toList.filter (c.AcceptsAt op literal ·) ∧
          ∀ row, kept.contains row = true ↔
            rows.contains row = true ∧ c.AcceptsAt op literal row) := by
  refine ⟨filter_of_not_isNumeric, fun hn hl => ⟨filter_refused hn hl, rfl⟩, fun hn hl => ?_⟩
  obtain ⟨kept, hfilter, hrange, hlist⟩ := exists_filter op hn hl hrows
  have haccepts : kept.toList = rows.toList.filter (c.AcceptsAt op literal ·) := by
    rw [hlist]
    apply List.filter_congr
    intro row hrow
    rw [Bool.eq_iff_iff, beq_iff_eq, decide_eq_true_eq]
    exact satisfies?_eq_some_true_iff (hrows row hrow) hn hl
  refine ⟨kept, hfilter, haccepts, fun row => ?_⟩
  rw [Candidates.contains_iff_inRange_and_mem, Candidates.contains_iff_inRange_and_mem, hrange,
    haccepts, List.mem_filter, decide_eq_true_eq, and_assoc]

/-- End times of which the first and the third are too great for 64 signed bits. -/
def ends : Column :=
  .endTime "end" #[0x7fffffffffffffff, 5, 0x7ffffffffffffffe] #[1, -7, 0x7fffffffffffffff]

/-- The first two rows out of four, as an earlier filter left them. -/
def firstTwo : Candidates := ⟨0, 4, by decide, .flags #v[true, true, false, false]⟩

theorem filter_candidates_ends :
    (∀ row ∈ firstTwo.toList, ends.HasRow row) ∧
      ∃ kept, ends.filter .eq (.integer 0x7fffffffffffffff) firstTwo = (kept, .complete) ∧
        kept.toList = [0] := by
  have hrows : ∀ row ∈ firstTwo.toList, ends.HasRow row := by
    intro row hrow
    have hlt : row < 2 := by
      revert row
      decide
    constructor
    · exact Nat.lt_trans hlt (by decide)
    · rintro n ⟨⟩
      exact Nat.lt_of_lt_of_le hlt (by decide)
  obtain ⟨kept, hfilter, hlist, _⟩ :=
    (filter_candidates .eq (.integer 0x7fffffffffffffff) hrows).2.2 rfl rfl
  exact ⟨hrows, kept, hfilter, hlist.trans (by decide +kernel)⟩

end Columnar.Column
