import Columnar.Proofs.Column.Reported
import Columnar.Proofs.Scan.Completed

/-! # Looking up reported values

A number that a scan reports can be looked up again in its column, and the lookup finds the row that
it comes from. A number reported as an integer finds only rows that hold that integer. Other numbers
may find more, since doubles stand for all integers that round to them.
-/

namespace Columnar

/-- The query for the rows that hold a value in a column, with that column for output. -/
def Query.lookup (position : Nat) (value : Value) : Query where
  constraints := [.eq position value]
  columns := [position]

def Value.isNaN : Value → Bool
  | .float x => x.isNaN
  | _ => false

/-! ## Reported cells -/

namespace Cell

variable {x : Cell}

theorem relatesDoubles_eq_self {a : Binary64} (h : a.isNaN = false) :
    Operator.eq.RelatesDoubles a a :=
  (Operator.relatesDoubles_iff h h).mpr rfl

theorem accepts_report (hx : x.asFloat?.isSome = true) (hn : x.report.isNaN = false) :
    Operator.eq.Accepts x x.report := by
  cases x with
  | integer a =>
    cases ha : IntType.int64.admits a with
    | true =>
      obtain ⟨hlo, hhi⟩ := admits_iff.mp ha
      rw [report, if_pos ha]
      exact (Int64.toInt_ofInt_of_le hlo (by omega)).symm
    | false =>
      rw [report, ha]
      exact relatesDoubles_eq_self (Binary64.isNaN_ofInt a)
  | float a => exact relatesDoubles_eq_self hn
  | text a => cases hx

end Cell

/-! ## Lookups -/

namespace Scanner

variable {s : Scanner} {logger : Logger} {schema : Schema} {elapsedMicros : Nat} {position : Nat}
  {column : Column} {value : Value} {row : Nat} {query : Query}

theorem resolve_lookup (value : Value) (hc : schema.columns[position]? = some column) :
    schema.resolve (.lookup position value) = ⟨[⟨column, .eq, value⟩], [], [column]⟩ := by
  simp [Schema.resolve, Query.lookup, Constraint.eq, hc]

theorem rejection?_equality (hq : query.constraints = [.eq position value])
    (hk : query.unknownColumn? schema.width = none) (hl : value.isNumeric = true) :
    query.rejection? schema.kinds = none := by
  rw [Schema.rejection?_eq_none_iff]
  refine ⟨hk, ?_⟩
  simp [Query.violation?, hq, Constraint.eq, hl]

theorem rejection?_lookup (hc : schema.columns[position]? = some column)
    (hl : value.isNumeric = true) :
    (Query.lookup position value).rejection? schema.kinds = none := by
  have hlt : position < schema.width := (List.getElem?_eq_some_iff.mp hc).1
  refine rejection?_equality rfl ?_ hl
  simp [Query.unknownColumn?, Query.lookup, Constraint.eq, hlt]

theorem mem_admitted_equality_iff (hq : query.constraints = [.eq position value])
    (hc : schema.columns[position]? = some column)
    (hnum : column.isNumeric = true) (hl : value.isNumeric = true)
    (hs : column.naturallyOrdered = true → column.Ascending)
    (hn : column.naturallyOrdered = true → column.All (!·.isNaN)) :
    row ∈ s.admitted schema query ↔
      row < schema.rowCount ∧ ∃ x ∈ column.cell? row, Operator.eq.Accepts x value ∨
        s.config.boundPruning = true ∧ column.naturallyOrdered = true ∧
          x.overreaches .eq value = true := by
  have hv : Condition.violation? ⟨column, .eq, value⟩ = none :=
    Condition.violation?_eq_none_iff.mpr fun _ => hl
  have hconditions : (schema.resolve query).conditions = [⟨column, .eq, value⟩] := by
    simp [Schema.resolve, hq, Constraint.eq, hc]
  rw [admitted, Prepared.mem_admitted_iff, hconditions]
  refine and_congr_right fun hrow => ?_
  have hr : column.HasRow row := Schema.hasRow (List.mem_of_getElem? hc) hrow
  rw [List.forall_mem_singleton, Condition.admits_iff hv hs hn hr]
  simp only [Condition.Holds, Condition.Overreaches, hnum, true_imp_iff]
  constructor
  · rintro (⟨x, hx, h⟩ | ⟨hp, ho, x, hx, h⟩)
    · exact ⟨x, hx, .inl h⟩
    · exact ⟨x, hx, .inr ⟨hp, ho, h⟩⟩
  · rintro ⟨x, hx, h | ⟨hp, ho, h⟩⟩
    · exact .inl ⟨x, hx, h⟩
    · exact .inr ⟨hp, ho, x, hx, h⟩

variable (s logger elapsedMicros) in
theorem exists_results_lookup (hc : schema.columns[position]? = some column)
    (hnum : column.isNumeric = true) (hl : value.isNumeric = true) :
    ∃ stats,
      (s.scan logger schema (.lookup position value) elapsedMicros).outcome = .completed stats ∧
        (s.scan logger schema (.lookup position value) elapsedMicros).results =
          (s.admitted schema (.lookup position value)).map (ResultRow.ofColumns [column]) := by
  have hresolve := resolve_lookup value hc
  have hcells : ∀ c ∈ (schema.resolve (.lookup position value)).outputs,
      ∀ row ∈ s.admitted schema (.lookup position value), ∃ x, c.cell? row = some x := by
    intro c hmem row hrow
    rw [hresolve] at hmem
    obtain rfl := List.mem_singleton.mp hmem
    exact (Schema.hasRow (List.mem_of_getElem? hc) (mem_admitted hrow)).exists_cell hnum
  have hfault :
      (s.scan logger schema (.lookup position value) elapsedMicros).outcome ≠ .faulted := by
    refine outcome_ne_faulted_of_cells ?_ hcells
    rw [hresolve]
    exact fun k hk => absurd hk List.not_mem_nil
  obtain ⟨_, _, _, hout⟩ :=
    (s.scan_of_no_rejection logger elapsedMicros (rejection?_lookup hc hl)).resolve_left hfault
  obtain ⟨how, rows, ha, hresults, _⟩ := completed_cases hout
  have hrows : s.admitted schema (.lookup position value) = rows := by
    rw [hresolve] at ha
    exact (Prod.mk.inj (Except.ok.inj ha)).2
  rw [hresolve, ← hrows] at hresults
  exact ⟨_, hout, hresults⟩

/--
Every row of a number column has a reported value, and unless that is NaN a lookup of the value
completes and reports the row. If the value is an integer, the lookup reports no other value.
-/
theorem exists_report_lookup (hc : schema.columns[position]? = some column)
    (hnum : column.isNumeric = true) (hs : column.naturallyOrdered = true → column.Ascending)
    (hn : column.naturallyOrdered = true → column.All (!·.isNaN)) (hrow : row < schema.rowCount) :
    ∃ value, column.report? row = some value ∧ (value.isNaN = false →
      (∃ stats, (s.scan logger schema (.lookup position value) elapsedMicros).outcome =
        .completed stats) ∧
      ⟨row, [value]⟩ ∈ (s.scan logger schema (.lookup position value) elapsedMicros).results ∧
      ∀ n, value = .integer n →
        ∀ result ∈ (s.scan logger schema (.lookup position value) elapsedMicros).results,
          result.values = [value]) := by
  obtain ⟨x, hx⟩ := (Schema.hasRow (List.mem_of_getElem? hc) hrow).exists_cell hnum
  have hfloat := Column.isSome_asFloat? hnum hx
  have hl : x.report.isNumeric = true := Cell.isNumeric_report hfloat
  obtain ⟨stats, hout, hresults⟩ := s.exists_results_lookup logger elapsedMicros hc hnum hl
  have hreport {row : Nat} {y : Cell} (hy : column.cell? row = some y) :
      ResultRow.ofColumns [column] row = ⟨row, [y.report]⟩ := by
    simp [ResultRow.ofColumns, Column.report?, hy]
  refine ⟨x.report, by rw [Column.report?, hx]; rfl, fun hnan => ⟨⟨stats, hout⟩, ?_, ?_⟩⟩
  · rw [hresults]
    apply List.mem_map.mpr
    refine ⟨row, (mem_admitted_equality_iff rfl hc hnum hl hs hn).mpr ⟨hrow, x, hx, .inl ?_⟩,
      hreport hx⟩
    exact Cell.accepts_report hfloat hnan
  · intro n hvalue result hresult
    rw [hresults] at hresult
    obtain ⟨row', hadmitted, rfl⟩ := List.mem_map.mp hresult
    obtain ⟨_, y, hy, hequal⟩ := (mem_admitted_equality_iff rfl hc hnum hl hs hn).mp hadmitted
    -- Cells of one column are of one kind, so the other cell is an integer too.
    have hrank : x.rank = y.rank := Column.rank_eq hx hy
    rw [hvalue] at hequal
    rw [hreport hy, hvalue, Cell.report_eq_integer_iff.mpr ?_]
    rw [Cell.report_eq_integer_iff.mp hvalue] at hrank
    cases y with
    | integer a =>
      rcases hequal with ha | ⟨_, _, ha⟩
      · exact congrArg Cell.integer ha
      · cases ha
    | float => cases hrank
    | text => cases hrank

/-- Sizes in order, of which the last two are too great for 64 signed bits. -/
def sizes : Column :=
  .numeric "size" (.integer .uint64)
    #[⟨7, by decide⟩, ⟨0x9000000000000000, by decide⟩, ElementType.greatest _] false true

/-- The greatest size is reported as two to the 64th, which finds it again. -/
theorem exists_report_lookup_sizes :
    ⟨2, [.float ⟨0x43f0000000000000⟩]⟩ ∈ (({} : Scanner).scan {} { columns := [sizes] }
      (.lookup 0 (.float ⟨0x43f0000000000000⟩)) 0).results := by
  have hs : sizes.Ascending := Column.ascending_numeric_iff.mpr (by decide)
  have hn : sizes.All (!·.isNaN) := Column.all_numeric_iff.mpr fun _ _ => rfl
  have hc : ({ columns := [sizes] } : Schema).columns[0]? = some sizes := rfl
  have hrow : 2 < ({ columns := [sizes] } : Schema).rowCount := by decide +kernel
  obtain ⟨value, hvalue, hlookup⟩ :=
    exists_report_lookup hc rfl (fun _ => hs) (fun _ => hn) hrow
  have hreport : sizes.report? 2 = some (.float ⟨0x43f0000000000000⟩) := by decide +kernel
  obtain rfl : value = .float ⟨0x43f0000000000000⟩ := Option.some.inj (hvalue.symm.trans hreport)
  exact (hlookup (by decide +kernel)).2.1

end Scanner

end Columnar
