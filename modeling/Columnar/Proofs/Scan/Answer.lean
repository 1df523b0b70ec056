import Columnar.Proofs.Scan.Run

/-! # The answer of a scan

A completed scan reports the rows that its query selects, each of them once, in the order that the
query asks for. The options of the scanner do not show in the answer.
-/

namespace Columnar

theorem RowOrder.precedes_of_isNatural {keys : List SortKey} (h : isNatural keys = true)
    (hs : ∀ k ∈ keys, k.column.naturallyOrdered = true → k.column.Ascending)
    {a b : Nat} (ha : ∀ k ∈ keys, k.column.HasRow a) (hb : ∀ k ∈ keys, k.column.HasRow b)
    (hab : a < b) : Precedes keys a b := by
  match keys, h with
  | [k], h =>
    obtain ⟨hdir, hord⟩ := Bool.and_eq_true_iff.mp h
    have hnum : k.column.isNumeric = true := by
      revert hord
      cases k.column <;> simp [Column.naturallyOrdered, Column.isNumeric]
    obtain ⟨x, hx⟩ := (ha k List.mem_cons_self).exists_cell hnum
    obtain ⟨y, hy⟩ := (hb k List.mem_cons_self).exists_cell hnum
    have hnot : ¬ y.Before x := hs k List.mem_cons_self hord a b x y hab hx hy
    have hcmp : k.cellCompare x y = x.sortCompare y := by
      rw [SortKey.cellCompare, SortKey.directed, if_neg]
      simpa using hdir
    have hgt : x.sortCompare y ≠ .gt := by
      intro hgt
      exact hnot ((Cell.sortCompare_eq_lt_iff (Column.rank_eq hy hx)).mp
        (Std.OrientedCmp.lt_of_gt hgt))
    have hk : k.compare? a b = some (x.sortCompare y) :=
      SortKey.compare?_eq_some_iff.mpr ⟨x, hx, y, hy, hcmp⟩
    rw [precedes_cons_iff, hk]
    cases ho : x.sortCompare y with
    | lt => exact .inl rfl
    | eq => exact .inr ⟨rfl, .inr ⟨rfl, hab⟩⟩
    | gt => exact absurd ho hgt

/-! ## A table of readings -/

/-- Four readings of two sensors, in the order of their times. -/
def readings : Schema where
  columns :=
    [.numeric "time" (.integer .int64)
      #[⟨1, by decide⟩, ⟨2, by decide⟩, ⟨2, by decide⟩, ⟨5, by decide⟩] false true,
     .text "sensor" #[0, 1, 0, 1] #["a", "b"] false]

/-- The readings from time 2 on, those of the last sensor first. -/
def latest : Query where
  constraints := [.ge 0 (.integer 2)]
  order := [⟨1, true⟩]

theorem ascending_readings : readings.Ascending := by
  intro c hc hord
  simp only [readings, List.mem_cons, List.not_mem_nil, or_false] at hc
  rcases hc with rfl | rfl
  · exact Column.ascending_numeric_iff.mpr (by decide)
  · cases hord

theorem orderedAll_readings : readings.OrderedAll Cell.isFinite := by
  intro c hc hord
  simp only [readings, List.mem_cons, List.not_mem_nil, or_false] at hc
  rcases hc with rfl | rfl
  · exact Column.all_numeric_iff.mpr fun _ _ => rfl
  · cases hord

namespace Scanner

variable {s : Scanner} {logger : Logger} {schema : Schema} {query : Query} {elapsedMicros : Nat}
  {stats : Stats}

-- Sorting by merging does not reduce, so evaluation goes by insertion.
theorem outcome_latest :
    (({} : Scanner).scan {} readings latest 0).outcome = .completed ⟨3, 3, 1, 0, true⟩ := by
  simp only [scan, run, Prepared.select, arrangeRows, RowOrder.sort?_eq_insertionSort]
  decide +kernel

theorem rows_latest : (({} : Scanner).scan {} readings latest 0).rows = [1, 3, 2] := by
  simp only [scan, run, Prepared.select, arrangeRows, RowOrder.sort?_eq_insertionSort]
  decide +kernel

/-! ## Selected rows -/

theorem pairwise_admitted : (s.admitted schema query).Pairwise (· < ·) := Prepared.pairwise_admitted

theorem perm_rows_scan (h : (s.scan logger schema query elapsedMicros).outcome = .completed stats) :
    (s.scan logger schema query elapsedMicros).rows.Perm (s.admitted schema query) := by
  obtain ⟨how, ha⟩ := scan_of_completed h
  exact perm_of_arrangeRows ha

theorem not_overreachedAt (hf : schema.OrderedAll Cell.isFinite) {c : Constraint} {row : Nat} :
    ¬ schema.OverreachedAt c row := by
  rintro ⟨column, hcolumn, hord, x, hx, ho⟩
  have hfinite := hf column (List.mem_of_getElem? hcolumn) hord row x hx
  cases x with
  | integer a => cases ho
  | text a => cases ho
  | float a =>
    simp only [Cell.isFinite, Bool.and_eq_true, Bool.not_eq_true'] at hfinite
    simp only [Cell.overreaches, hfinite.2, Bool.and_false, Bool.false_and, Bool.false_eq_true]
      at ho

/--
A completed scan reports exactly the rows that its query selects, each of them once. Columns that
promise order ascend and hold no NaN and no infinity.
-/
theorem mem_rows_scan_iff (hs : schema.Ascending) (hf : schema.OrderedAll Cell.isFinite)
    (h : (s.scan logger schema query elapsedMicros).outcome = .completed stats) :
    (∀ row, row ∈ (s.scan logger schema query elapsedMicros).rows ↔ schema.Selects query row) ∧
      (s.scan logger schema query elapsedMicros).rows.Nodup := by
  have hn : schema.OrderedAll (!·.isNaN) := hf.imp fun _ => Cell.not_isNaN_of_isFinite
  have hperm := perm_rows_scan h
  constructor
  · intro row
    rw [hperm.mem_iff, s.mem_admitted_iff (rejection?_of_completed h) hs hn, Schema.Selects]
    simp only [not_overreachedAt hf, and_false, or_false]
  · exact hperm.nodup_iff.mpr (pairwise_admitted.imp Nat.ne_of_lt)

theorem mem_rows_scan_latest :
    (∀ row, row ∈ (({} : Scanner).scan {} readings latest 0).rows ↔
        readings.Selects latest row) ∧
      (({} : Scanner).scan {} readings latest 0).rows.Nodup :=
  mem_rows_scan_iff ascending_readings orderedAll_readings outcome_latest

/-! ## Order of the rows -/

/--
A completed scan reports its rows in the order of its ORDER BY terms with ties by row, whether it
sorts them, has no need to, or has nothing to sort.
-/
theorem pairwise_rows_scan (hs : schema.Ascending)
    (h : (s.scan logger schema query elapsedMicros).outcome = .completed stats) :
    (s.scan logger schema query elapsedMicros).rows.Pairwise (schema.Precedes query.order) := by
  have hknown := (Schema.rejection?_eq_none_iff.mp (rejection?_of_completed h)).1
  have hkeys := Schema.forall₂_isKey hknown
  refine List.Pairwise.imp (fun hab => (Schema.precedes_iff hkeys).mpr hab) ?_
  obtain ⟨how, ha⟩ := scan_of_completed h
  have hasc : (s.admitted schema query).Pairwise (· < ·) := pairwise_admitted
  rcases arrangeRows_cases ha with ⟨_, hrows, hnone | hle⟩ | ⟨_, hrows, hnat⟩ | ⟨_, hsort⟩
  · rw [hrows, hnone]
    exact hasc.imp fun hab => .inr ⟨rfl, hab⟩
  · rw [hrows]
    match s.admitted schema query, hle with
    | [], _ => exact .nil
    | [row], _ => exact List.pairwise_singleton _ _
  · rw [hrows]
    refine hasc.imp_of_mem fun ha hb hab => ?_
    refine RowOrder.precedes_of_isNatural hnat ?_ ?_ ?_ hab
    · exact fun k hk => hs _ (Schema.column_mem_of_mem_keys hk)
    · exact fun k hk => Schema.hasRow (Schema.column_mem_of_mem_keys hk) (mem_admitted ha)
    · exact fun k hk => Schema.hasRow (Schema.column_mem_of_mem_keys hk) (mem_admitted hb)
  · exact RowOrder.pairwise_sort? hsort hasc

theorem pairwise_rows_scan_latest :
    (({} : Scanner).scan {} readings latest 0).rows = [1, 3, 2] ∧
      (({} : Scanner).scan {} readings latest 0).rows.Pairwise
        (readings.Precedes latest.order) :=
  ⟨rows_latest, pairwise_rows_scan ascending_readings outcome_latest⟩

end Scanner

end Columnar
