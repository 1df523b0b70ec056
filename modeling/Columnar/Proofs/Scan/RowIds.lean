import Columnar.Proofs.RowId
import Columnar.Proofs.Scan.Cells
import Columnar.Proofs.Scan.Lookup

/-! # Rows by their ids

An equality with a row id selects the row of that id, if the table has it, and no other row. A scan
for it therefore has nothing to sort, and it reports the row whatever order is asked for.
-/

namespace Columnar

/-! ## Scans of at most one row -/

section FewRows

variable {rows : List Nat}

theorem arrangeRows_of_length_le_one (h : rows.length ≤ 1) (config : Config)
    (keys : List SortKey) : arrangeRows config keys rows = .ok (.none, rows) := by
  simp only [arrangeRows, h, decide_true, Bool.or_true, if_true]

/-- A row is begun before its values, so a missing value does not keep it out of the report. -/
theorem filterMap_row?_report_of_length_le_one (h : rows.length ≤ 1) (outputs : List Column) :
    (report outputs rows).1.filterMap SinkCall.row? = rows := by
  match rows, h with
  | [], _ => rfl
  | [row], _ =>
    simp only [report, reportCalls, List.flatMap_singleton, List.takeWhile_cons, Option.isSome_some,
      if_true, List.filterMap_cons, id_eq, SinkCall.row?, List.filterMap_filterMap]
    refine congrArg (row :: ·) (List.filterMap_eq_nil_iff.mpr fun call hcall => ?_)
    obtain ⟨c, _, rfl⟩ := List.mem_map.mp (List.takeWhile_sublist _ |>.subset hcall)
    cases c.report? row <;> rfl

end FewRows

namespace Scanner

variable {s : Scanner} {logger : Logger} {schema : Schema} {query : Query} {elapsedMicros : Nat}

theorem rows_scan_of_length_le_one (hrej : query.rejection? schema.kinds = none)
    (hle : (s.admitted schema query).length ≤ 1) :
    (s.scan logger schema query elapsedMicros).rows = s.admitted schema query := by
  change (s.run logger schema query).calls.filterMap SinkCall.row? = _
  rw [s.calls_run logger hrej (arrangeRows_of_length_le_one hle _ _)]
  exact filterMap_row?_report_of_length_le_one hle _

variable (logger elapsedMicros) in
theorem exists_completed_of_length_le_one (hrej : query.rejection? schema.kinds = none)
    (hle : (s.admitted schema query).length ≤ 1)
    (houtputs : ∀ c ∈ (schema.resolve query).outputs, ∀ row ∈ s.admitted schema query,
      ∃ x, c.cell? row = some x) :
    ∃ stats, (s.scan logger schema query elapsedMicros).outcome = .completed stats := by
  have hreport : (report (schema.resolve query).outputs (s.admitted schema query)).2 = true :=
    report_complete fun row hrow c hc => houtputs c hc row hrow
  have hresult := s.result_run logger hrej
  rw [arrangeRows_of_length_le_one hle] at hresult
  simp only [scan, hresult, hreport, if_true]
  exact ⟨_, rfl⟩

/-! ## Scans for an id -/

variable {position : Nat} {name : String} {table : UInt8} {x : Int64}

theorem mem_admitted_id_iff (hc : schema.columns[position]? = some (.rowId name table))
    (hq : query.constraints = [.eq position (.integer x)]) {row : Nat} :
    row ∈ s.admitted schema query ↔ row < schema.rowCount ∧ 0 ≤ x.toInt ∧
      x.toInt < 0x10000000000 ∧ RowId.decode x.toUInt64 = ⟨table, .ofNat row⟩ := by
  rw [mem_admitted_equality_iff hq hc rfl rfl nofun nofun, ← RowId.toNat_encode_eq_toInt_iff]
  simp [Column.cell?, Column.naturallyOrdered, Operator.Accepts, Operator.Relates]

theorem length_admitted_id_le (hc : schema.columns[position]? = some (.rowId name table))
    (hq : query.constraints = [.eq position (.integer x)]) :
    (s.admitted schema query).length ≤ 1 := by
  have hasc : (s.admitted schema query).Pairwise (· < ·) := Prepared.pairwise_admitted
  have hmem : ∀ row ∈ s.admitted schema query, row < schema.rowCount ∧ 0 ≤ x.toInt ∧
      x.toInt < 0x10000000000 ∧ RowId.decode x.toUInt64 = ⟨table, .ofNat row⟩ :=
    fun _ => (mem_admitted_id_iff hc hq).mp
  match s.admitted schema query, hasc, hmem with
  | [], _, _ => exact Nat.zero_le 1
  | [_], _, _ => exact Nat.le_refl 1
  | a :: b :: rows, hasc, hmem =>
    obtain ⟨ha, _, _, hida⟩ := hmem a List.mem_cons_self
    obtain ⟨hb, _, _, hidb⟩ := hmem b (List.mem_cons_of_mem _ List.mem_cons_self)
    -- The rows of a schema fit into words, so rows with one id are the same row.
    have hsize : schema.rowCount ≤ UInt32.size :=
      Nat.le_trans Schema.rowCount_le_rowLimit (by decide)
    have hword : (UInt32.ofNat a).toNat = (UInt32.ofNat b).toNat :=
      congrArg (·.row.toNat) (hida.symm.trans hidb)
    have hlt : a < b := List.rel_of_pairwise_cons hasc List.mem_cons_self
    rw [UInt32.toNat_ofNat_of_lt' (Nat.lt_of_lt_of_le ha hsize),
      UInt32.toNat_ofNat_of_lt' (Nat.lt_of_lt_of_le hb hsize)] at hword
    omega

theorem values_of_id (hc : schema.columns[position]? = some (.rowId name table))
    (hq : query.constraints = [.eq position (.integer x)]) {stats : Stats}
    (h : (s.scan logger schema query elapsedMicros).outcome = .completed stats) {result : ResultRow}
    (hresult : result ∈ (s.scan logger schema query elapsedMicros).results) {j : Nat}
    (hj : (query.outputPositions schema.width)[j]? = some position) :
    result.values[j]? = some (.integer x) := by
  have hrow : result.row ∈ s.admitted schema query := by
    obtain ⟨how, ha⟩ := scan_of_completed h
    rw [(results_of_completed h).1] at hresult
    obtain ⟨row, hrow, rfl⟩ := List.mem_map.mp hresult
    exact (perm_of_arrangeRows ha).mem_iff.mp hrow
  have hid := RowId.toNat_encode_eq_toInt_iff.mpr ((mem_admitted_id_iff hc hq).mp hrow).2
  have hreport : schema.report? position result.row = some (.integer x) := by
    rw [Schema.report?, hc, Option.bind_some, Column.report?, Column.cell?, hid, Option.map_some,
      Cell.report_eq_integer_iff.mpr rfl]
  have hvalues := congrArg (·[j]?) (values_of_mem_results h hresult)
  simp only [List.getElem?_map, hj, Option.map_some, hreport] at hvalues
  exact Option.map_injective (Option.some_injective _) hvalues

variable (s logger elapsedMicros) in
/--
Row ids and rows determine each other, so that a scan for an integer in a column of ids reports the
row of its table that the integer is the id of, and nothing for any other integer. It completes if
the other columns of the output have their texts, and shows the integer as the id of the row.
-/
theorem mem_rows_scan_id_iff (hc : schema.columns[position]? = some (.rowId name table))
    (hq : query.constraints = [.eq position (.integer x)])
    (hk : query.unknownColumn? schema.width = none) :
    (∀ id : RowId, RowId.decode id.encode = id) ∧
      (∀ a b : RowId, a.encode < b.encode ↔
        a.table < b.table ∨ a.table = b.table ∧ a.row < b.row) ∧
      (∀ word, (RowId.decode word).encode = word &&& 0xffffffffff) ∧
      (∀ row, row ∈ (s.scan logger schema query elapsedMicros).rows ↔
        row < schema.rowCount ∧ 0 ≤ x.toInt ∧ x.toInt < 0x10000000000 ∧
          RowId.decode x.toUInt64 = ⟨table, .ofNat row⟩) ∧
      (x.toInt < 0 ∨ 0x10000000000 ≤ x.toUInt64 ∨ (RowId.decode x.toUInt64).table ≠ table →
        (s.scan logger schema query elapsedMicros).rows = []) ∧
      ((∀ c ∈ (schema.resolve query).outputs, c.InternedBelow schema.rowCount) →
        ∃ stats, (s.scan logger schema query elapsedMicros).outcome = .completed stats ∧
          ∀ result ∈ (s.scan logger schema query elapsedMicros).results, ∀ j : Nat,
            (query.outputPositions schema.width)[j]? = some position →
              result.values[j]? = some (.integer x)) := by
  have hrej : query.rejection? schema.kinds = none := rejection?_equality hq hk rfl
  have hle : (s.admitted schema query).length ≤ 1 := length_admitted_id_le hc hq
  have hrows : (s.scan logger schema query elapsedMicros).rows = s.admitted schema query :=
    rows_scan_of_length_le_one hrej hle
  refine ⟨RowId.decode_encode, fun a b => RowId.encode_lt_encode_iff, RowId.encode_decode,
    fun row => ?_, fun hnone => ?_, fun hi => ?_⟩
  · rw [hrows]
    exact mem_admitted_id_iff hc hq
  · rw [hrows, List.eq_nil_iff_forall_not_mem]
    intro row hrow
    obtain ⟨_, hlo, hhi, hid⟩ := (mem_admitted_id_iff hc hq).mp hrow
    have hword := RowId.toNat_toUInt64 hlo
    rcases hnone with hneg | hupper | htable
    · omega
    · rw [UInt64.le_iff_toNat_le] at hupper
      change 0x10000000000 ≤ x.toUInt64.toNat at hupper
      omega
    · exact htable (congrArg RowId.table hid)
  · have hcells : ∀ c ∈ (schema.resolve query).outputs, ∀ row ∈ s.admitted schema query,
        ∃ x, c.cell? row = some x := by
      intro c hmem row hrow
      have hr : c.HasRow row := Schema.hasRow (Schema.mem_of_mem_outputs hmem) (mem_admitted hrow)
      exact hr.exists_text (hi c hmem) (mem_admitted hrow)
    obtain ⟨stats, hout⟩ := exists_completed_of_length_le_one logger elapsedMicros hrej hle hcells
    exact ⟨stats, hout, fun result hresult j hj => values_of_id hc hq hout hresult hj⟩

/-- The query for the second file by its id, which asks for labels and for an order by label. -/
def secondFile : Query where
  constraints := [.eq 1 (.integer 0x200000001)]
  order := [⟨0, true⟩]
  columns := [0, 1]

theorem mem_rows_scan_id_iff_files :
    1 ∈ (({} : Scanner).scan {} files secondFile 0).rows ∧
      ∃ stats, (({} : Scanner).scan {} files secondFile 0).outcome = .completed stats ∧
        ∀ result ∈ (({} : Scanner).scan {} files secondFile 0).results,
          result.values[1]? = some (.integer 0x200000001) := by
  have hcount : files.rowCount = 3 := by decide
  have hinterned : ∀ c ∈ (files.resolve secondFile).outputs, c.InternedBelow files.rowCount := by
    intro c hc
    have houtputs : c = .text "label" #[1, 0, 1] #["", "a"] false ∨ c = .rowId "id" 2 := by
      simpa [Schema.resolve, secondFile, files] using hc
    rcases houtputs with rfl | rfl
    · rw [hcount]
      change ∀ row < 3, ∀ id ∈ (#[1, 0, 1] : Array Nat)[row]?, id < 2
      decide
    · trivial
  have hc : files.columns[1]? = some (.rowId "id" 2) := rfl
  have hq : secondFile.constraints = [.eq 1 (.integer 0x200000001)] := rfl
  have hk : secondFile.unknownColumn? files.width = none := by decide
  obtain ⟨_, _, _, hrows, _, hcompleted⟩ := mem_rows_scan_id_iff {} {} 0 hc hq hk
  constructor
  · refine (hrows 1).mpr ⟨?_, by decide, by decide, by decide⟩
    rw [hcount]
    decide
  · obtain ⟨stats, hout, hvalues⟩ := hcompleted hinterned
    exact ⟨stats, hout, fun result hresult => hvalues result hresult 1 rfl⟩

end Scanner

end Columnar
