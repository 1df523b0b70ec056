import Mathlib.Data.List.TakeWhile
import Columnar.Scan.Output

/-! # Reported rows

A complete report is the calls of its rows, one row after another, and a collector gathers exactly
these rows from it.
-/

namespace Columnar

/-- The calls that report a row with its values. -/
def ResultRow.calls (r : ResultRow) : List SinkCall := .beginRow r.row :: r.values.map .value

/-- A row with what the columns report for it. -/
def ResultRow.ofColumns (outputs : List Column) (row : Nat) : ResultRow :=
  ⟨row, outputs.filterMap (·.report? row)⟩

theorem calls_report {outputs : List Column} {rows : List Nat}
    (h : (report outputs rows).2 = true) :
    (report outputs rows).1 = rows.flatMap fun row => (ResultRow.ofColumns outputs row).calls := by
  have hall : (reportCalls outputs rows).takeWhile Option.isSome = reportCalls outputs rows :=
    List.takeWhile_eq_self_iff.mpr (List.all_eq_true.mp h)
  change ((reportCalls outputs rows).takeWhile Option.isSome).filterMap id = _
  rw [hall, reportCalls, List.filterMap_flatMap]
  congr 1
  funext row
  refine congrArg (SinkCall.beginRow row :: ·) ?_
  rw [ResultRow.ofColumns, List.map_filterMap]
  exact List.filterMap_map

namespace Collector

theorem addValue_concat (v : Value) (rows : List ResultRow) (last : ResultRow) :
    addValue v (rows ++ [last]) = rows ++ [{ last with values := last.values ++ [v] }] := by
  induction rows with
  | nil => rfl
  | cons row rows ih =>
    cases rows with
    | nil => rfl
    | cons next rows => exact congrArg (row :: ·) ih

theorem foldl_receive_values (rows : List ResultRow) (last : ResultRow) (values : List Value) :
    (values.map .value).foldl receive ⟨rows ++ [last]⟩ =
      ⟨rows ++ [{ last with values := last.values ++ values }]⟩ := by
  induction values generalizing last with
  | nil => simp
  | cons v values ih => simp [receive, addValue_concat, ih]

theorem foldl_receive_calls (c : Collector) (r : ResultRow) :
    r.calls.foldl receive c = ⟨c.rows ++ [r]⟩ := by
  have h := foldl_receive_values c.rows ⟨r.row, []⟩ r.values
  rwa [List.nil_append] at h

theorem rows_ofCalls (results : List ResultRow) :
    (ofCalls (results.flatMap ResultRow.calls)).rows = results := by
  have h (c : Collector) : (results.flatMap ResultRow.calls).foldl receive c =
      ⟨c.rows ++ results⟩ := by
    induction results generalizing c with
    | nil => simp
    | cons r results ih =>
      rw [List.flatMap_cons, List.foldl_append, foldl_receive_calls, ih]
      simp
  rw [ofCalls, h]
  rfl

end Collector

end Columnar
