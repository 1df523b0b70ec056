import Columnar.Proofs.Bounds
import Columnar.Proofs.Column.Growth
import Columnar.Proofs.Scan.Conjunction

/-! # Scans of a snapshot

A scan sees the rows below its row count and nothing else. Tables that are alike below their common
row count, such as a table and its snapshot or a table that has grown since, answer alike.
-/

namespace Columnar

section Forall₂

variable {α β γ : Type} {R : α → β → Prop} {xs : List α} {ys : List β}

theorem map_eq_of_forall₂ (h : List.Forall₂ R xs ys) {f : α → γ} {g : β → γ}
    (hfg : ∀ x y, R x y → f x = g y) : xs.map f = ys.map g := by
  induction h with
  | nil => rfl
  | cons hxy _ ih => rw [List.map_cons, List.map_cons, hfg _ _ hxy, ih]

theorem all_eq_of_forall₂ (h : List.Forall₂ R xs ys) {p : α → Bool} {q : β → Bool}
    (hpq : ∀ x y, R x y → p x = q y) : xs.all p = ys.all q := by
  have hall := congrArg (List.all · id) (map_eq_of_forall₂ h hpq)
  simpa only [List.all_map, Function.id_comp] using hall

theorem countP_eq_of_forall₂ (h : List.Forall₂ R xs ys) {p : α → Bool} {q : β → Bool}
    (hpq : ∀ x y, R x y → p x = q y) : xs.countP p = ys.countP q := by
  have hcount := congrArg (List.countP id) (map_eq_of_forall₂ h hpq)
  simpa only [List.countP_map, Function.id_comp] using hcount

theorem exists_mem_of_forall₂ (h : List.Forall₂ R xs ys) {y : β} (hy : y ∈ ys) :
    ∃ x ∈ xs, R x y := by
  induction h with
  | nil => cases hy
  | cons hxy _ ih =>
    cases hy with
    | head => exact ⟨_, List.mem_cons_self, hxy⟩
    | tail _ hy =>
      obtain ⟨x, hx, hxy⟩ := ih hy
      exact ⟨x, List.mem_cons_of_mem _ hx, hxy⟩

theorem rel_getElem? (h : List.Forall₂ R xs ys) (i : Nat) : Option.Rel R xs[i]? ys[i]? := by
  induction h generalizing i with
  | nil => exact .none
  | cons hxy _ ih =>
    cases i with
    | zero => exact .some hxy
    | succ i => exact ih i

theorem rel_map {α' β' : Type} {S : α' → β' → Prop} {x : Option α} {y : Option β}
    (h : Option.Rel R x y) {f : α → α'} {g : β → β'} (hfg : ∀ a b, R a b → S (f a) (g b)) :
    Option.Rel S (x.map f) (y.map g) := by
  cases h with
  | none => exact .none
  | some hab => exact .some (hfg _ _ hab)

end Forall₂

/-! ## Queries on alike columns -/

/-- Whether two conditions are the same constraint on columns that are alike to the first rows. -/
structure Condition.SameBelow (n : Nat) (c d : Condition) : Prop where
  column : c.column.SameBelow n d.column
  op : c.op = d.op
  value : c.value = d.value

/-- Whether two keys are the same one on columns that are alike to the first rows. -/
structure SortKey.SameBelow (n : Nat) (k l : SortKey) : Prop where
  column : k.column.SameBelow n l.column
  descending : k.descending = l.descending

/-- Whether two prepared queries are the same one on columns that are alike to the first rows. -/
structure Prepared.SameBelow (n : Nat) (p q : Prepared) : Prop where
  conditions : List.Forall₂ (Condition.SameBelow n) p.conditions q.conditions
  keys : List.Forall₂ (SortKey.SameBelow n) p.keys q.keys
  outputs : List.Forall₂ (Column.SameBelow n) p.outputs q.outputs

section SameBelow

variable {config : Config} {n : Nat}

namespace Condition.SameBelow

variable {c d : Condition} (h : c.SameBelow n d)
include h

theorem consumed : c.bounds.consumed = d.bounds.consumed := by
  rw [Condition.bounds, Condition.bounds, h.op, h.value, h.column.consumed]

variable {row : Nat} (hrow : row < n)
include hrow

theorem contains : c.bounds.contains row = d.bounds.contains row := by
  rw [Condition.bounds, Condition.bounds, h.op, h.value, h.column.contains _ _ row hrow]

theorem passes : c.passes row = d.passes row := by
  rw [Condition.passes, Condition.passes, Column.satisfies?, Column.satisfies?, h.op, h.value,
    h.column.isNumeric, h.column.cell? row hrow]

theorem admits : c.admits config row = d.admits config row := by
  rw [Condition.admits, Condition.admits, h.consumed, h.contains hrow, h.passes hrow]

end Condition.SameBelow

namespace Plan

variable {conditions conditions' : List Condition}
  (h : List.Forall₂ (Condition.SameBelow n) conditions conditions')
include h

theorem length_range_of_sameBelow : (ofConditions config n conditions).range.length =
    (ofConditions config n conditions').range.length := by
  refine Bounds.length_eq_of_contains fun row => ?_
  rw [contains_range_iff, contains_range_iff]
  refine and_congr_right fun hrow => imp_congr_right fun _ => ?_
  have hall := all_eq_of_forall₂ h fun _ _ hcd => hcd.contains hrow
  rw [← List.all_eq_true, ← List.all_eq_true, hall]

theorem consumed_of_sameBelow : (ofConditions config n conditions).consumed =
    (ofConditions config n conditions').consumed := by
  unfold ofConditions
  split
  · exact countP_eq_of_forall₂ h fun _ _ hcd => hcd.consumed
  · rfl

theorem length_residual_of_sameBelow : (ofConditions config n conditions).residual.length =
    (ofConditions config n conditions').residual.length := by
  unfold ofConditions
  split
  · rw [← List.countP_eq_length_filter, ← List.countP_eq_length_filter]
    exact countP_eq_of_forall₂ h fun _ _ hcd => congrArg (!·) hcd.consumed
  · exact h.length_eq

end Plan

theorem SortKey.SameBelow.compare? {k l : SortKey} (h : k.SameBelow n l) {a b : Nat} (ha : a < n)
    (hb : b < n) : k.compare? a b = l.compare? a b := by
  simp only [SortKey.compare?, SortKey.directed, h.descending, h.column.cell? a ha,
    h.column.cell? b hb]

theorem SortKey.SameBelow.compare {k l : SortKey} (h : k.SameBelow n l) {a b : Nat} (ha : a < n)
    (hb : b < n) : k.compare a b = l.compare a b := by
  simp only [SortKey.compare, SortKey.directed, h.descending, h.column.cell? a ha,
    h.column.cell? b hb]

namespace RowOrder

variable {keys keys' : List SortKey} (h : List.Forall₂ (SortKey.SameBelow n) keys keys')
include h

theorem isNatural_of_sameBelow : isNatural keys = isNatural keys' := by
  cases h with
  | nil => rfl
  | cons hkl h =>
    cases h with
    | nil => rw [isNatural, isNatural, hkl.descending, hkl.column.naturallyOrdered]
    | cons => rfl

theorem compare?_of_sameBelow {a b : Nat} (ha : a < n) (hb : b < n) :
    compare? keys a b = compare? keys' a b := by
  induction h with
  | nil => rfl
  | cons hkl _ ih => rw [compare?, compare?, hkl.compare? ha hb, ih]

theorem compare_of_sameBelow {a b : Nat} (ha : a < n) (hb : b < n) :
    compare keys a b = compare keys' a b := by
  induction h with
  | nil => rfl
  | cons hkl _ ih => rw [compare, compare, hkl.compare ha hb, ih]

variable {rows : List Nat} (hrows : ∀ row ∈ rows, row < n)
include hrows

theorem comparable_of_sameBelow : comparable keys rows = comparable keys' rows := by
  induction rows with
  | nil => rfl
  | cons a rows ih =>
    cases rows with
    | nil => rfl
    | cons b rows =>
      have hab := compare?_of_sameBelow h (hrows a (by simp)) (hrows b (by simp))
      have hrest := ih fun row hrow => hrows row (List.mem_cons_of_mem _ hrow)
      rw [comparable, comparable, hab, hrest]

theorem arrange_of_sameBelow : arrange keys rows = arrange keys' rows := by
  have hle : ∀ a ∈ rows, ∀ b ∈ rows, (compare keys a b).isLE = (compare keys' a b).isLE :=
    fun a ha b hb => congrArg _ (compare_of_sameBelow h (hrows a ha) (hrows b hb))
  have harrange : (arrange keys rows).map id = arrange keys' (rows.map id) := List.map_mergeSort hle
  rwa [List.map_id, List.map_id] at harrange

theorem sort?_of_sameBelow : sort? keys rows = sort? keys' rows := by
  have hrows' : ∀ row ∈ arrange keys' rows, row < n :=
    fun row hrow => hrows row (perm_arrange.mem_iff.mp hrow)
  simp only [sort?, arrange_of_sameBelow h hrows, comparable_of_sameBelow h hrows']

theorem arrangeRows_of_sameBelow :
    arrangeRows config keys rows = arrangeRows config keys' rows := by
  have hempty : keys.isEmpty = keys'.isEmpty := by cases h <;> rfl
  rw [arrangeRows, arrangeRows, hempty, isNatural_of_sameBelow h, sort?_of_sameBelow h hrows]

end RowOrder

theorem report_of_sameBelow {outputs outputs' : List Column} {rows : List Nat}
    (h : List.Forall₂ (Column.SameBelow n) outputs outputs') (hrows : ∀ row ∈ rows, row < n) :
    report outputs rows = report outputs' rows := by
  have hcalls : reportCalls outputs rows = reportCalls outputs' rows := by
    refine List.flatMap_congr fun row hrow => congrArg (_ :: ·) ?_
    refine map_eq_of_forall₂ h fun c d hcd => ?_
    rw [Column.report?, Column.report?, hcd.cell? row (hrows row hrow)]
  rw [report, report, hcalls]

theorem Prepared.SameBelow.admitted {p q : Prepared} (h : p.SameBelow n q) :
    p.admitted config n = q.admitted config n :=
  List.filter_congr fun _ hrow =>
    all_eq_of_forall₂ h.conditions fun _ _ hcd => hcd.admits (List.mem_range.mp hrow)

end SameBelow

/-! ## Alike tables -/

/-- Whether two tables have one row count and are alike below it. -/
structure Schema.Same (s t : Schema) : Prop where
  rowCount : s.rowCount = t.rowCount
  columns : List.Forall₂ (Column.SameBelow t.rowCount) s.columns t.columns

namespace Schema.Same

variable {s t : Schema}

theorem kinds_eq (h : s.Same t) : s.kinds = t.kinds :=
  map_eq_of_forall₂ h.columns fun _ _ hcd => by rw [hcd.name, hcd.isNumeric]

theorem resolve (h : s.Same t) (q : Query) :
    Prepared.SameBelow t.rowCount (s.resolve q) (t.resolve q) := by
  have hcolumn (position : Nat) := rel_getElem? h.columns position
  have hrefl {α : Type} (xs : List α) : List.Forall₂ Eq xs xs :=
    List.forall₂_same.mpr fun _ _ => rfl
  refine ⟨?_, ?_, ?_⟩
  · refine List.rel_filterMap ?_ (hrefl q.constraints)
    rintro c _ rfl
    exact rel_map (hcolumn c.column) fun _ _ hcd => ⟨hcd, rfl, rfl⟩
  · refine List.rel_filterMap ?_ (hrefl q.order)
    rintro term _ rfl
    exact rel_map (hcolumn term.column) fun _ _ hcd => ⟨hcd, rfl⟩
  · simp only [Schema.resolve]
    split
    · exact h.columns
    · refine List.rel_filterMap ?_ (hrefl q.columns)
      rintro position _ rfl
      exact hcolumn position

end Schema.Same

/-! ## Grown tables -/

namespace Schema

/-- Whether a table has the columns of an earlier one, whose storage has been appended to. -/
def GrowsTo (s t : Schema) : Prop := List.Forall₂ Column.GrowsTo s.columns t.columns

/-- The table with what is stored for its rows, whose number is fixed. -/
def snapshot (s : Schema) : Schema where
  columns := s.columns.map (Column.take s.rowCount)
  primaryKeys := s.primaryKeys
  fixedRowCount := some (UInt32.ofNat s.rowCount)

variable {s t : Schema}

theorem snapshot_growsTo (s : Schema) : s.snapshot.GrowsTo s :=
  List.forall₂_map_left_iff.mpr (List.forall₂_same.mpr fun c _ => c.growsTo_of_take s.rowCount)

theorem rowCount_snapshot (s : Schema) : s.snapshot.rowCount = s.rowCount := by
  have hfixed : (UInt32.ofNat s.rowCount).toNat = s.rowCount :=
    UInt32.toNat_ofNat_of_lt' (Nat.lt_of_le_of_lt s.rowCount_le_rowLimit (by decide))
  -- No column is left with fewer rows than the table has.
  have hmin : ((s.snapshot.fixedRowCount.map UInt32.toNat).toList ++
      s.snapshot.columns.filterMap Column.rowCount?).min? = some s.rowCount := by
    refine List.min?_eq_some_iff.mpr ⟨?_, fun n hn => ?_⟩
    · exact List.mem_append_left _ (by rw [snapshot, Option.map_some, hfixed]; exact .head _)
    · rcases List.mem_append.mp hn with hn | hn
      · rw [snapshot, Option.map_some, hfixed] at hn
        exact Nat.le_of_eq (List.mem_singleton.mp hn).symm
      · obtain ⟨_, htake, hn⟩ := List.mem_filterMap.mp hn
        obtain ⟨c, hc, rfl⟩ := List.mem_map.mp htake
        rw [Column.rowCount?_take] at hn
        obtain ⟨m, hm, rfl⟩ := Option.map_eq_some_iff.mp hn
        exact Nat.le_min.mpr ⟨Nat.le_refl _, rowCount_le hc hm⟩
  rw [rowCount, hmin, Option.getD_some]

theorem Interned.snapshot (h : s.Interned) : s.snapshot.Interned := by
  rw [Interned, rowCount_snapshot]
  intro c hc
  obtain ⟨d, hd, rfl⟩ := List.mem_map.mp hc
  exact (h d hd).take

namespace GrowsTo

theorem interned (h : s.GrowsTo t) (hcount : s.rowCount = t.rowCount) (hi : s.Interned) :
    t.Interned := by
  intro d hd
  obtain ⟨c, hc, hcd⟩ := exists_mem_of_forall₂ h hd
  rw [← hcount]
  exact hcd.internedBelow (fun row hrow => hasRow hc hrow) (hi c hc)

theorem same (h : s.GrowsTo t) (hcount : s.rowCount = t.rowCount) (hi : s.Interned)
    (hs : t.Ascending) (hn : t.OrderedAll (!·.isNaN)) : s.Same t := by
  refine ⟨hcount, List.forall₂_iff_zip.mpr ⟨h.length_eq, ?_⟩⟩
  intro c d hzip
  obtain ⟨hc, hd⟩ := List.of_mem_zip hzip
  rw [← hcount]
  exact (List.forall₂_zip h hzip).sameBelow (fun row hrow => hasRow hc hrow) (hi c hc) (hs d hd)
    (hn d hd)

end GrowsTo

end Schema

/-- Whether two scans ended alike after the same calls. -/
def ScanRun.Same (a b : ScanRun) : Prop := a.outcome = b.outcome ∧ a.calls = b.calls

namespace Scanner

variable {s : Scanner} {logger logger' : Logger} {schema schema' : Schema} {query : Query}
  {elapsedMicros elapsedMicros' : Nat}

theorem same_scan (h : schema.Same schema') (hi : schema.Interned) (hi' : schema'.Interned) :
    (s.scan logger schema query elapsedMicros).Same
      (s.scan logger' schema' query elapsedMicros') := by
  cases hr : query.rejection? schema'.kinds with
  | some error =>
    obtain ⟨hout, hcalls, _⟩ := s.scan_of_rejection logger elapsedMicros (h.kinds_eq ▸ hr)
    obtain ⟨hout', hcalls', _⟩ := s.scan_of_rejection logger' elapsedMicros' hr
    exact ⟨hout.trans hout'.symm, hcalls.trans hcalls'.symm⟩
  | none =>
    obtain ⟨how, ha, hcalls, hout⟩ := (s.scan_of_no_rejection logger elapsedMicros
      (h.kinds_eq ▸ hr)).resolve_left (outcome_ne_faulted hi)
    obtain ⟨how', ha', hcalls', hout'⟩ := (s.scan_of_no_rejection logger' elapsedMicros'
      hr).resolve_left (outcome_ne_faulted hi')
    have hq := h.resolve query
    have hrows : ∀ row ∈ s.admitted schema' query, row < schema'.rowCount := fun _ => mem_admitted
    have hadmitted : s.admitted schema query = s.admitted schema' query := by
      rw [admitted, admitted, h.rowCount, hq.admitted]
    -- Both scans arrange the same rows by keys that compare them alike.
    have hsame := ha
    rw [hadmitted, RowOrder.arrangeRows_of_sameBelow hq.keys hrows, ha'] at hsame
    obtain ⟨rfl, heq⟩ := Prod.mk.inj (Except.ok.inj hsame)
    have hreported : ∀ row ∈ (s.scan logger' schema' query elapsedMicros').rows,
        row < schema'.rowCount := fun row hrow =>
      hrows row ((perm_of_arrangeRows ha').mem_iff.mp hrow)
    constructor
    · rw [hout, hout', selectionStats_eq (h.kinds_eq ▸ hr) ha, selectionStats_eq hr ha', heq]
      simp only [plan, h.rowCount, Plan.length_range_of_sameBelow hq.conditions,
        Plan.consumed_of_sameBelow hq.conditions, Plan.length_residual_of_sameBelow hq.conditions]
    · rw [hcalls, hcalls', ← heq, report_of_sameBelow hq.outputs hreported]

/--
Rows beyond the row count do not show in a scan: it completes or is rejected, with the same
statistics or error and the same calls, on the snapshot of the table and on every table that has
grown from it without gaining a row. Columns that promise order ascend without NaN, those that have
grown too, and every row has its text.
-/
theorem same_scan_snapshot (hs : schema.Ascending) (hn : schema.OrderedAll (!·.isNaN))
    (hi : schema.Interned) :
    (s.scan logger schema query elapsedMicros).outcome ≠ .faulted ∧
      (s.scan logger schema query elapsedMicros).Same
        (s.scan logger' schema.snapshot query elapsedMicros') ∧
      ∀ grown : Schema, schema.GrowsTo grown → grown.rowCount = schema.rowCount →
        grown.Ascending → grown.OrderedAll (!·.isNaN) →
          (s.scan logger schema query elapsedMicros).Same
            (s.scan logger' grown query elapsedMicros') := by
  refine ⟨outcome_ne_faulted hi, ?_, ?_⟩
  · have hsame : schema.snapshot.Same schema :=
      schema.snapshot_growsTo.same schema.rowCount_snapshot hi.snapshot hs hn
    have hscan : (s.scan logger' schema.snapshot query elapsedMicros').Same
        (s.scan logger schema query elapsedMicros) := same_scan hsame hi.snapshot hi
    exact ⟨hscan.1.symm, hscan.2.symm⟩
  · intro grown hgrown hcount hs' hn'
    exact same_scan (hgrown.same hcount.symm hi hs' hn') hi (hgrown.interned hcount.symm hi)

/-- Four readings of two sensors, of which a reader sees the first three. -/
def firstReadings : Schema where
  columns :=
    [.numeric "time" (.integer .int32)
      #[⟨1, by decide⟩, ⟨2, by decide⟩, ⟨2, by decide⟩, ⟨5, by decide⟩] false true,
     .text "sensor" #[0, 1, 0, 1] #["a", "b"] false]
  fixedRowCount := some 3

/-- The readings with a fifth one, of a new sensor, as the same reader sees them. -/
def laterReadings : Schema where
  columns :=
    [.numeric "time" (.integer .int32)
      (#[⟨1, by decide⟩, ⟨2, by decide⟩, ⟨2, by decide⟩, ⟨5, by decide⟩] ++ #[⟨9, by decide⟩]) false
      true,
     .text "sensor" (#[0, 1, 0, 1] ++ #[2]) (#["a", "b"] ++ #["c"]) false]
  fixedRowCount := some 3

theorem ascending_firstReadings : firstReadings.Ascending := by
  intro c hc hord
  simp only [firstReadings, List.mem_cons, List.not_mem_nil, or_false] at hc
  rcases hc with rfl | rfl
  · exact Column.ascending_numeric_iff.mpr (by decide)
  · cases hord

theorem orderedAll_firstReadings : firstReadings.OrderedAll (!·.isNaN) := by
  intro c hc hord
  simp only [firstReadings, List.mem_cons, List.not_mem_nil, or_false] at hc
  rcases hc with rfl | rfl
  · exact Column.all_numeric_iff.mpr fun _ _ => rfl
  · cases hord

theorem interned_firstReadings : firstReadings.Interned := by
  intro c hc
  simp only [firstReadings, List.mem_cons, List.not_mem_nil, or_false] at hc
  rcases hc with rfl | rfl
  · trivial
  · intro row _ id hid
    have hall : ∀ id ∈ #[0, 1, 0, 1], id < #["a", "b"].size := by decide
    exact hall id (Array.mem_of_getElem? hid)

theorem same_scan_snapshot_readings :
    (({} : Scanner).scan {} firstReadings latest 0).rows = [1, 2] ∧
      (({} : Scanner).scan {} firstReadings latest 0).Same
        (({} : Scanner).scan {} firstReadings.snapshot latest 0) ∧
      (({} : Scanner).scan {} firstReadings latest 0).Same
        (({} : Scanner).scan {} laterReadings latest 0) := by
  have hgrown : firstReadings.GrowsTo laterReadings :=
    .cons (.numeric _ _) (.cons (.text _ _ _ _) .nil)
  have hrows : (({} : Scanner).scan {} firstReadings latest 0).rows = [1, 2] := by
    simp only [scan, run, Prepared.select, arrangeRows, RowOrder.sort?_eq_insertionSort]
    decide +kernel
  refine ⟨hrows, (same_scan_snapshot ascending_firstReadings orderedAll_firstReadings
      interned_firstReadings).2.1, (same_scan_snapshot ascending_firstReadings
        orderedAll_firstReadings interned_firstReadings).2.2 laterReadings hgrown
          (by decide +kernel) ?_ ?_⟩
  · intro c hc hord
    simp only [laterReadings, List.mem_cons, List.not_mem_nil, or_false] at hc
    rcases hc with rfl | rfl
    · exact Column.ascending_numeric_iff.mpr (by decide)
    · cases hord
  · intro c hc hord
    simp only [laterReadings, List.mem_cons, List.not_mem_nil, or_false] at hc
    rcases hc with rfl | rfl
    · exact Column.all_numeric_iff.mpr fun _ _ => rfl
    · cases hord

end Scanner

end Columnar
