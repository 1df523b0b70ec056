import Columnar.Proofs.Column.Reported
import Columnar.Proofs.Scan.Cells
import Columnar.Proofs.Scan.Conjunction

/-! # The sequence of reported values

A scan sorts rows by their cells and reports values. Where the column of its first ORDER BY term is
reported, the values come in the order of that term, whether the rows were sorted for it or not.
-/

namespace Columnar

/-- The values that a scan reported at a position of its output, one for each row. -/
def ScanRun.columnValues (r : ScanRun) (position : Nat) : List Value :=
  (Collector.ofCalls r.calls).columnValues position

/-- Whether a reported value may stand before another under an ORDER BY term. -/
def OrderTerm.Admits (t : OrderTerm) (v w : Value) : Prop :=
  if t.descending then w.AtMost v else v.AtMost w

section Cells

variable {t : OrderTerm} {k : SortKey} {keys : List SortKey} {a b : Nat} {x y : Cell}

theorem RowOrder.Follows.isLE_cellCompare {config : Config}
    (h : RowOrder.Follows config (k :: keys) a b)
    (hs : k.column.naturallyOrdered = true → k.column.Ascending)
    (hx : k.column.cell? a = some x) (hy : k.column.cell? b = some y) :
    (k.cellCompare x y).isLE = true := by
  unfold RowOrder.Follows at h
  split at h
  · rename_i hnatural
    have hnatural := (Bool.and_eq_true_iff.mp hnatural).2
    cases keys with
    | nil =>
      obtain ⟨hdir, hord⟩ := Bool.and_eq_true_iff.mp hnatural
      rw [Bool.not_eq_true'] at hdir
      have hnot : ¬ y.Before x := hs hord a b x y h hx hy
      rw [SortKey.cellCompare, SortKey.directed, hdir, if_neg Bool.false_ne_true,
        Ordering.isLE_iff_ne_gt]
      intro hgt
      exact hnot ((Cell.sortCompare_eq_lt_iff (Column.rank_eq hy hx)).mp
        (Std.OrientedCmp.lt_of_gt hgt))
    | cons => cases hnatural
  · have hle : (RowOrder.compare (k :: keys) a b).isLE = true := by
      rcases h with h | ⟨h, -⟩ <;> rw [h] <;> rfl
    have hfirst : (k.compare a b).isLE = true := Ordering.isLE_left_of_isLE_then hle
    rw [SortKey.compare, hx, hy] at hfirst
    exact hfirst

/-- Cells in the order of a term are reported in it, and ascending integers before doubles. -/
theorem Schema.IsKey.admits_report {s : Schema} (hk : s.IsKey t k)
    (hx : k.column.cell? a = some x) (hy : k.column.cell? b = some y)
    (h : (k.cellCompare x y).isLE = true) :
    t.Admits x.report y.report ∧
      (t.descending = false → x.report.kind = .float → y.report.kind ≠ .integer) := by
  rw [OrderTerm.Admits, hk.2]
  rw [SortKey.cellCompare, SortKey.directed] at h
  cases hd : k.descending with
  | false =>
    rw [hd, if_neg Bool.false_ne_true] at h
    rw [if_neg Bool.false_ne_true]
    obtain ⟨hle, hkind⟩ := Column.report_atMost hx hy h
    exact ⟨hle, fun _ => hkind⟩
  | true =>
    rw [hd, if_pos rfl, ← Std.OrientedCmp.eq_swap] at h
    rw [if_pos rfl]
    exact ⟨(Column.report_atMost hy hx h).1, Bool.noConfusion⟩

end Cells

namespace Scanner

variable {s : Scanner} {logger : Logger} {schema : Schema} {query : Query} {elapsedMicros : Nat}
  {stats : Stats} {term : OrderTerm} {terms : List OrderTerm} {position column : Nat}

theorem map_some_columnValues
    (h : (s.scan logger schema query elapsedMicros).outcome = .completed stats)
    (hposition : (query.outputPositions schema.width)[position]? = some column) :
    ((s.scan logger schema query elapsedMicros).columnValues position).map some =
      (s.scan logger schema query elapsedMicros).rows.map (schema.report? column) := by
  have hvalue : ∀ result ∈ (s.scan logger schema query elapsedMicros).results,
      ∃ v, result.values[position]? = some v ∧ schema.report? column result.row = some v := by
    intro result hresult
    have hvalues := congrArg (·[position]?) (values_of_mem_results h hresult)
    simp only [List.getElem?_map, hposition, Option.map_some] at hvalues
    obtain ⟨v, hv, hreport⟩ := Option.map_eq_some_iff.mp hvalues
    exact ⟨v, hv, hreport.symm⟩
  have hrows : (s.scan logger schema query elapsedMicros).rows =
      (s.scan logger schema query elapsedMicros).results.map ResultRow.row := by
    rw [(results_of_completed h).1, List.map_map]
    exact (List.map_id _).symm
  rw [hrows, List.map_map]
  refine Eq.trans (map_some_filterMap fun result hresult => ?_) (List.map_congr_left ?_)
  · obtain ⟨v, hv, -⟩ := hvalue result hresult
    exact ⟨v, hv⟩
  · intro result hresult
    obtain ⟨v, hv, hreport⟩ := hvalue result hresult
    exact hv.trans hreport.symm

theorem pairwise_columnValues {r : Value → Value → Prop}
    (h : (s.scan logger schema query elapsedMicros).outcome = .completed stats)
    (hposition : (query.outputPositions schema.width)[position]? = some column)
    (hr : (s.scan logger schema query elapsedMicros).rows.Pairwise fun a b =>
      ∀ v ∈ schema.report? column a, ∀ w ∈ schema.report? column b, r v w) :
    ((s.scan logger schema query elapsedMicros).columnValues position).Pairwise r := by
  rw [← List.pairwise_map (R := fun o o' : Option Value => ∀ v ∈ o, ∀ w ∈ o', r v w),
    ← map_some_columnValues h hposition, List.pairwise_map] at hr
  exact hr.imp fun hvw => hvw _ rfl _ rfl

theorem pairwise_report (hs : schema.Ascending)
    (h : (s.scan logger schema query elapsedMicros).outcome = .completed stats)
    (horder : query.order = term :: terms) :
    (s.scan logger schema query elapsedMicros).rows.Pairwise fun a b =>
      ∀ v ∈ schema.report? term.column a, ∀ w ∈ schema.report? term.column b,
        term.Admits v w ∧ (term.descending = false → v.kind = .float → w.kind ≠ .integer) := by
  have hkeys := Schema.forall₂_isKey
    (Schema.rejection?_eq_none_iff.mp (rejection?_of_completed h)).1
  rw [horder, List.forall₂_cons_left_iff] at hkeys
  obtain ⟨k, keys, hk, -, hkeys⟩ := hkeys
  obtain ⟨how, ha⟩ := scan_of_completed h
  have hfollows := pairwise_arrangeRows ha pairwise_admitted
  rw [hkeys] at hfollows
  refine hfollows.imp fun hab v hv w hw => ?_
  simp only [Schema.report?, hk.1, Option.bind_some, Column.report?, Option.mem_def,
    Option.map_eq_some_iff] at hv hw
  obtain ⟨x, hx, rfl⟩ := hv
  obtain ⟨y, hy, rfl⟩ := hw
  have hascending := hs k.column (List.mem_of_getElem? hk.1)
  exact hk.admits_report hx hy (hab.isLE_cellCompare hascending hx hy)

/--
A completed scan that reports the column of its first ORDER BY term reports one value of it for each
row, in the order of the term. Under an ascending term no double comes before an integer, and end
times beyond the same limit tie.
-/
theorem columnValues_scan (hs : schema.Ascending)
    (h : (s.scan logger schema query elapsedMicros).outcome = .completed stats)
    (horder : query.order = term :: terms)
    (hposition : (query.outputPositions schema.width)[position]? = some term.column) :
    ((s.scan logger schema query elapsedMicros).columnValues position).length =
        stats.rowsReturned ∧
      ((s.scan logger schema query elapsedMicros).columnValues position).Pairwise term.Admits ∧
      (term.descending = false →
        ((s.scan logger schema query elapsedMicros).columnValues position).Pairwise fun v w =>
          v.kind = .float → w.kind ≠ .integer) ∧
      ∀ c ∈ schema.columns[term.column]?, ∀ limit a b,
        c.SaturatesAt limit a → c.SaturatesAt limit b →
          (⟨c, term.descending⟩ : SortKey).compare? a b = some .eq ∧ c.report? a = c.report? b := by
  have hpairwise := pairwise_columnValues h hposition (pairwise_report hs h horder)
  refine ⟨?_, hpairwise.imp And.left, fun hd => hpairwise.imp fun hvw => hvw.2 hd, ?_⟩
  · have hlength := congrArg List.length (map_some_columnValues h hposition)
    rw [List.length_map, List.length_map, ← (results_of_completed h).2] at hlength
    exact hlength
  · intro c _ limit a b ha hb
    have hx := Column.cell?_of_saturatesAt ha
    have hy := Column.cell?_of_saturatesAt hb
    constructor
    · rw [SortKey.compare?_eq_some_iff]
      exact ⟨_, hx, _, hy, Std.ReflCmp.compare_self⟩
    · rw [Column.report?, Column.report?, hx, hy]

/-- Three jobs, of which the first and the last have no end within 64 signed bits. -/
def jobs : Schema where
  columns := [.endTime "end" #[9223372036854775807, 5, 9223372036854775800] #[1, 5, 9]]

theorem columnValues_scan_jobs :
    let run := ({} : Scanner).scan {} jobs { order := [⟨0, false⟩] } 0
    run.columnValues 0 =
        [.integer 10, .integer 9223372036854775807, .integer 9223372036854775807] ∧
      (run.columnValues 0).Pairwise (OrderTerm.mk 0 false).Admits ∧
      (⟨jobs.columns[0], false⟩ : SortKey).compare? 0 2 = some .eq := by
  intro run
  have hs : jobs.Ascending := by
    intro c hc hord
    obtain rfl := List.mem_singleton.mp hc
    cases hord
  have h : run.outcome = .completed ⟨3, 3, 0, 0, true⟩ := by
    simp only [run, scan, Scanner.run, Prepared.select, arrangeRows,
      RowOrder.sort?_eq_insertionSort]
    decide +kernel
  have hlimit : ∀ row ∈ [0, 2], jobs.columns[0].SaturatesAt IntType.int64.greatest row := by
    intro row hrow
    rcases List.mem_pair.mp hrow with rfl | rfl
    · exact ⟨_, rfl, _, rfl, .inr ⟨rfl, by decide⟩⟩
    · exact ⟨_, rfl, _, rfl, .inr ⟨rfl, by decide⟩⟩
  obtain ⟨-, hvalues, -, hties⟩ :=
    columnValues_scan hs h rfl (show ([0] : List Nat)[0]? = some 0 from rfl)
  refine ⟨?_, hvalues, (hties _ rfl _ 0 2 (hlimit 0 (by decide)) (hlimit 2 (by decide))).1⟩
  simp only [run, scan, Scanner.run, Prepared.select, arrangeRows, RowOrder.sort?_eq_insertionSort]
  decide +kernel

end Scanner

end Columnar
