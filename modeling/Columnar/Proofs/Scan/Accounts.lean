import Mathlib.Algebra.GroupWithZero.Nat
import Columnar.Proofs.Words.Scan

/-! # The accounts of a scanner

The counters of a scanner account for all of its scans: how many completed and failed, and what the
completed ones did in sum. The statistics of each completed scan agree with its query and its table.
-/

namespace Columnar

/-- A scan that a scanner is asked for, and the circumstances in which it runs. -/
structure ScanCall where
  logger : Logger := {}
  schema : Schema
  query : Query
  elapsedMicros : Nat := 0

/-- The scans that are asked for by queries, each on its table. -/
def ScanCall.ofQueries (logger : Logger) (elapsedMicros : Nat) (queries : List (Schema × Query)) :
    List ScanCall :=
  queries.map fun (schema, query) => ⟨logger, schema, query, elapsedMicros⟩

/-- A scan that was asked for, and what it did. -/
structure Response where
  call : ScanCall
  run : ScanRun

namespace Response

/-- The statistics of a scan that completed. -/
def stats? (r : Response) : Option Stats :=
  match r.run.outcome with
  | .completed stats => some stats
  | _ => none

def isRejected (r : Response) : Bool :=
  match r.run.outcome with
  | .rejected _ => true
  | _ => false

theorem stats?_eq_some_iff {r : Response} {stats : Stats} :
    r.stats? = some stats ↔ r.run.outcome = .completed stats := by
  unfold stats?
  cases r.run.outcome <;> simp

/-- Whether a completed scan was asked for an order and reported rows that can be out of order. -/
def hasOrder (r : Response) : Bool :=
  !r.call.query.isUnordered && r.stats?.any fun stats => decide (2 ≤ stats.rowsReturned)

/-- What the completed ones of some scans did in sum, as a word that wraps. -/
def total (f : Stats → Nat) (scans : List Response) : UInt64 :=
  .ofNat ((scans.filterMap (·.stats?)).map f).sum

theorem total_append (f : Stats → Nat) (scans later : List Response) :
    total f (scans ++ later) = total f scans + total f later := by
  rw [total, total, total, List.filterMap_append, List.map_append, List.sum_append,
    UInt64.ofNat_add]

end Response

namespace Scanner

/-- A scan by the state in which a scanner is, with what it was asked for. -/
def respond (s : Scanner) (call : ScanCall) : Response :=
  ⟨call, s.scan call.logger call.schema call.query call.elapsedMicros⟩

/-- The scans that a scanner makes one after another. -/
def history (s : Scanner) : List ScanCall → List Response
  | [] => []
  | call :: calls => s.respond call :: (s.respond call).run.scanner.history calls

/-- The scanner after scans. -/
def after (s : Scanner) (calls : List ScanCall) : Scanner :=
  calls.foldl (fun s call => (s.respond call).run.scanner) s

section Queries

variable (s : Scanner) (logger : Logger) (elapsedMicros : Nat) (queries : List (Schema × Query))

theorem scanAll_eq_history : s.scanAll logger elapsedMicros queries =
    (s.history (ScanCall.ofQueries logger elapsedMicros queries)).map Response.run := by
  induction queries generalizing s with
  | nil => rfl
  | cons query queries ih => exact congrArg (_ :: ·) (ih _)

theorem scanner_scanAll :
    (s.scanAll logger elapsedMicros queries).getLast?.elim s ScanRun.scanner =
      s.after (ScanCall.ofQueries logger elapsedMicros queries) := by
  induction queries generalizing s with
  | nil => rfl
  | cons query queries ih =>
    have hlast (run : ScanRun) (runs : List ScanRun) : (run :: runs).getLast?.elim s
        ScanRun.scanner = runs.getLast?.elim run.scanner ScanRun.scanner := by
      rw [List.getLast?_cons]
      cases runs.getLast? <;> rfl
    rw [scanAll, hlast]
    exact ih _

end Queries

end Scanner

/-- What the counters of a scanner, which are words that wrap, have grown by over scans. -/
structure Counters.Account (first last : Counters) (scans : List Response) : Prop where
  scansExecuted :
    last.scansExecuted = first.scansExecuted + .ofNat (scans.filterMap (·.stats?)).length
  scansFailed : last.scansFailed = first.scansFailed + .ofNat (scans.countP (·.isRejected))
  rowsConsidered :
    last.rowsConsidered = first.rowsConsidered + Response.total (·.rowsConsidered) scans
  rowsReturned : last.rowsReturned = first.rowsReturned + Response.total (·.rowsReturned) scans
  constraintsConsumed : last.constraintsConsumed =
    first.constraintsConsumed + Response.total (·.constraintsConsumed) scans
  filtersApplied :
    last.filtersApplied = first.filtersApplied + Response.total (·.filtersApplied) scans
  sortsPerformed : last.sortsPerformed =
    first.sortsPerformed + .ofNat ((scans.filterMap (·.stats?)).countP (·.sorted))
  /-- Rows that an order was asked for were sorted, or were known to be in order. -/
  sorts : last.sortsPerformed + last.sortsSkipped =
    first.sortsPerformed + first.sortsSkipped + .ofNat (scans.countP (·.hasOrder))

/-- What the statistics of a completed scan say of its table and its query. -/
structure Stats.Describes (stats : Stats) (schema : Schema) (query : Query) : Prop where
  constraints : stats.constraintsConsumed + stats.filtersApplied = query.constraints.length
  rowsReturned_le : stats.rowsReturned ≤ stats.rowsConsidered
  rowsConsidered_le : stats.rowsConsidered ≤ schema.rowCount
  rowsReturned_eq : stats.filtersApplied = 0 → stats.rowsReturned = stats.rowsConsidered

/-- Statistics whose numbers are words, so that none of them overflowed while it was counted. -/
structure Stats.AreWords (stats : Stats) : Prop where
  rowsConsidered : stats.rowsConsidered < UInt32.size
  rowsReturned : stats.rowsReturned < UInt32.size
  constraintsConsumed : stats.constraintsConsumed < UInt32.size
  filtersApplied : stats.filtersApplied < UInt32.size

theorem Stats.Describes.areWords {stats : Stats} {schema : Schema} {query : Query}
    (h : stats.Describes schema query) (hq : query.constraints.length < UInt32.size) :
    stats.AreWords := by
  have hconstraints := h.constraints
  have hconsidered : stats.rowsConsidered < UInt32.size :=
    Nat.lt_of_le_of_lt (Nat.le_trans h.rowsConsidered_le Schema.rowCount_le_rowLimit) (by decide)
  exact ⟨hconsidered, Nat.lt_of_le_of_lt h.rowsReturned_le hconsidered, by omega, by omega⟩

namespace Counters.Account

variable {first next last : Counters} {scans later : List Response}

theorem nil : Account first first [] := by
  constructor <;> simp [Response.total]

theorem append (h : Account first next scans) (h' : Account next last later) :
    Account first last (scans ++ later) where
  scansExecuted := by
    rw [h'.scansExecuted, h.scansExecuted, List.filterMap_append, List.length_append,
      UInt64.ofNat_add, UInt64.add_assoc]
  scansFailed := by
    rw [h'.scansFailed, h.scansFailed, List.countP_append, UInt64.ofNat_add, UInt64.add_assoc]
  rowsConsidered := by
    rw [h'.rowsConsidered, h.rowsConsidered, Response.total_append, UInt64.add_assoc]
  rowsReturned := by
    rw [h'.rowsReturned, h.rowsReturned, Response.total_append, UInt64.add_assoc]
  constraintsConsumed := by
    rw [h'.constraintsConsumed, h.constraintsConsumed, Response.total_append, UInt64.add_assoc]
  filtersApplied := by
    rw [h'.filtersApplied, h.filtersApplied, Response.total_append, UInt64.add_assoc]
  sortsPerformed := by
    rw [h'.sortsPerformed, h.sortsPerformed, List.filterMap_append, List.countP_append,
      UInt64.ofNat_add, UInt64.add_assoc]
  sorts := by
    rw [h'.sorts, h.sorts, List.countP_append, UInt64.ofNat_add, UInt64.add_assoc]

end Counters.Account

/-! ## Plans -/

namespace Schema

variable {s : Schema} {q : Query}

theorem length_conditions (h : q.unknownColumn? s.width = none) :
    (s.resolve q).conditions.length = q.constraints.length := by
  have hknown : ∀ c ∈ q.constraints, c.column < s.width := by
    simp only [Query.unknownColumn?, Option.or_eq_none_iff, Option.map_eq_none_iff,
      List.find?_eq_none, decide_eq_true_eq, Nat.not_le] at h
    exact h.1
  refine List.filterMap_length_eq_length.mpr fun c hc => ?_
  obtain ⟨column, _, hcolumn⟩ := columns_of_lt (hknown c hc)
  rw [hcolumn]
  rfl

theorem keys_eq_nil_iff (h : q.unknownColumn? s.width = none) :
    (s.resolve q).keys = [] ↔ q.order = [] := by
  rw [← List.length_eq_zero_iff, ← List.length_eq_zero_iff, (forall₂_isKey h).length_eq]

end Schema

theorem arrangement_eq_none_iff {config : Config} {keys : List SortKey} {rows sorted : List Nat}
    {how : Arrangement} (h : arrangeRows config keys rows = .ok (how, sorted)) :
    how = .none ↔ keys = [] ∨ rows.length ≤ 1 := by
  rw [← List.isEmpty_iff, ← decide_eq_true_iff (p := rows.length ≤ 1), ← Bool.or_eq_true]
  unfold arrangeRows at h
  split at h
  · rename_i hnone
    cases h
    exact iff_of_true rfl hnone
  · rename_i hsome
    refine iff_of_false ?_ hsome
    split at h
    · cases h
      exact Arrangement.noConfusion
    · split at h <;> cases h
      exact Arrangement.noConfusion

namespace Scanner

variable {s : Scanner} {logger : Logger} {schema : Schema} {query : Query} {elapsedMicros : Nat}
  {stats : Stats}

/-! ## One scan -/

theorem length_admitted_le_plan (s : Scanner) (schema : Schema) (query : Query) :
    (s.admitted schema query).length ≤ (s.plan schema query).range.length ∧
      ((s.plan schema query).residual = [] →
        (s.admitted schema query).length = (s.plan schema query).range.length) := by
  rw [← Plan.length_candidates, admitted, ← Prepared.filter_candidates_eq_admitted]
  refine ⟨List.length_filter_le _ _, fun hnone => ?_⟩
  change (List.filter (fun row => (s.plan schema query).residual.all _) _).length = _
  rw [hnone]
  exact congrArg _ (List.filter_eq_self.mpr fun _ _ => rfl)

theorem describes_of_completed
    (h : (s.scan logger schema query elapsedMicros).outcome = .completed stats) :
    stats.Describes schema query := by
  have hknown := (Schema.rejection?_eq_none_iff.mp (rejection?_of_completed h)).1
  obtain ⟨how, rows, ha, _, rfl⟩ := completed_cases h
  have hlength := (perm_of_arrangeRows ha).length_eq
  obtain ⟨hle, heq⟩ := length_admitted_le_plan s schema query
  refine ⟨?_, ?_, Plan.length_range_le, ?_⟩
  · exact Plan.consumed_add_length_residual.trans (Schema.length_conditions hknown)
  · exact hlength.trans_le hle
  · exact fun hnone => hlength.trans (heq (List.length_eq_zero_iff.mp hnone))

theorem counters_run (s : Scanner) (logger : Logger) (h : query.rejection? schema.kinds = none)
    {how : Arrangement} {rows : List Nat} (ha : arrangeRows s.config (schema.resolve query).keys
      (s.admitted schema query) = .ok (how, rows)) :
    (s.run logger schema query).counters = countArrangement s.counters how := by
  have hu := (Schema.rejection?_eq_none_iff.mp h).1
  have hrows := s.rows_select_of_no_rejection h
  rw [ha] at hrows
  simp only [run, Schema.prepare_eq, hu, hrows]

theorem record_countArrangement (c : Counters) (how : Arrangement) (stats : Stats) :
    (countArrangement c how).record stats = {
      scansExecuted := c.scansExecuted + 1
      scansFailed := c.scansFailed
      rowsConsidered := c.rowsConsidered + .ofNat stats.rowsConsidered
      rowsReturned := c.rowsReturned + .ofNat stats.rowsReturned
      constraintsConsumed := c.constraintsConsumed + .ofNat stats.constraintsConsumed
      filtersApplied := c.filtersApplied + .ofNat stats.filtersApplied
      sortsPerformed := c.sortsPerformed + if how = .sorted then 1 else 0
      sortsSkipped := c.sortsSkipped + if how = .elided then 1 else 0 } := by
  cases how <;>
    simp [countArrangement, Counters.addSortPerformed, Counters.addSortSkipped, Counters.record,
      Counters.addScanExecuted, Counters.addRowsConsidered, Counters.addRowsReturned,
      Counters.addConstraintsConsumed, Counters.addFiltersApplied]

theorem counters_of_completed
    (h : (s.scan logger schema query elapsedMicros).outcome = .completed stats) :
    ∃ how, stats.sorted = (how == .sorted) ∧
      (how = .none ↔ query.order = [] ∨ stats.rowsReturned ≤ 1) ∧
      (s.scan logger schema query elapsedMicros).scanner.counters =
        (countArrangement s.counters how).record stats := by
  have hrej := rejection?_of_completed h
  have hknown := (Schema.rejection?_eq_none_iff.mp hrej).1
  have hrun := result_run_of_completed h
  obtain ⟨how, rows, ha, _, rfl⟩ := completed_cases h
  refine ⟨how, rfl, ?_, ?_⟩
  · rw [arrangement_eq_none_iff ha, Schema.keys_eq_nil_iff hknown,
      ← (perm_of_arrangeRows ha).length_eq]
  · simp only [scan, hrun, counters_run s logger hrej ha]

theorem counters_of_rejected {error : ScanError}
    (h : (s.scan logger schema query elapsedMicros).outcome = .rejected error) :
    (s.scan logger schema query elapsedMicros).scanner.counters = s.counters.addScanFailed := by
  have hrej := rejection?_of_rejected h
  exact congrArg counters (s.scan_of_rejection logger elapsedMicros hrej).2.2

theorem account_respond (s : Scanner) (call : ScanCall)
    (h : (s.respond call).run.outcome ≠ .faulted) :
    Counters.Account s.counters (s.respond call).run.scanner.counters [s.respond call] := by
  cases hout : (s.respond call).run.outcome with
  | faulted => exact absurd hout h
  | rejected error =>
    have hstats : (s.respond call).stats? = none := by rw [Response.stats?, hout]
    have hrejected : (s.respond call).isRejected = true := by rw [Response.isRejected, hout]
    have hcounters : (s.respond call).run.scanner.counters = s.counters.addScanFailed :=
      counters_of_rejected hout
    constructor <;>
      simp [hcounters, hstats, hrejected, Response.total, Response.hasOrder,
        Counters.addScanFailed]
  | completed stats =>
    obtain ⟨how, hsorted, hnone, hadded⟩ := counters_of_completed hout
    rw [record_countArrangement] at hadded
    have hcounters : (s.respond call).run.scanner.counters = _ := hadded
    have hstats : (s.respond call).stats? = some stats := by rw [Response.stats?, hout]
    have hrejected : (s.respond call).isRejected = false := by rw [Response.isRejected, hout]
    have horder : (s.respond call).hasOrder = (how != .none) := by
      rw [Response.hasOrder, hstats, Bool.eq_iff_iff, bne_iff_ne, ne_eq, hnone]
      simp [respond, Query.isUnordered, Nat.lt_iff_add_one_le]
    constructor
    case sortsPerformed =>
      cases how <;> simp [hcounters, hstats, hsorted]
    case sorts =>
      -- Of the two counters that are added, the arrangement advances one or none.
      cases how <;> simp [hcounters, horder] <;> ac_rfl
    all_goals
      simp [hcounters, hstats, hrejected, Response.total]

/-! ## All scans -/

theorem mem_history (s : Scanner) (calls : List ScanCall) :
    ∀ scan ∈ s.history calls, ∃ s' : Scanner, scan = s'.respond scan.call := by
  induction calls generalizing s with
  | nil => exact fun _ h => absurd h List.not_mem_nil
  | cons call calls ih =>
    rintro scan (_ | ⟨_, h⟩)
    · exact ⟨s, rfl⟩
    · exact ih _ scan h

theorem account_history (s : Scanner) (calls : List ScanCall)
    (h : ∀ scan ∈ s.history calls, scan.run.outcome ≠ .faulted) :
    Counters.Account s.counters (s.after calls).counters (s.history calls) := by
  induction calls generalizing s with
  | nil => exact .nil
  | cons call calls ih =>
    have hfirst := s.account_respond call (h _ List.mem_cons_self)
    have hrest := ih (s.respond call).run.scanner fun scan hscan =>
      h scan (List.mem_cons_of_mem _ hscan)
    exact hfirst.append hrest

/--
The counters account for every scan of a run in which no scan faults, whatever the tables, queries
and log thresholds. Only completed scans are counted by what they did, and the statistics of each
of them describe its query and its table. A new scanner begins with all counters at zero.
-/
theorem counters_after (s : Scanner) (calls : List ScanCall)
    (h : ∀ scan ∈ s.history calls, scan.run.outcome ≠ .faulted) :
    Counters.Account s.counters (s.after calls).counters (s.history calls) ∧
      ∀ scan ∈ s.history calls, ∀ stats ∈ scan.stats?,
        stats.Describes scan.call.schema scan.call.query := by
  refine ⟨account_history s calls h, fun scan hscan stats hstats => ?_⟩
  obtain ⟨s', hs'⟩ := s.mem_history calls scan hscan
  rw [hs'] at hstats
  exact describes_of_completed (Response.stats?_eq_some_iff.mp hstats)

/-- The latest readings, a query that is rejected, and all readings by time. -/
def someCalls : List ScanCall :=
  [{ schema := readings, query := latest },
   { schema := readings, query := { constraints := [.eq 7 .null] } },
   { schema := readings, query := { order := [⟨0, false⟩] } }]

theorem counters_after_someCalls :
    (({} : Scanner).after someCalls).counters = {
        scansExecuted := 2, scansFailed := 1, rowsConsidered := 7, rowsReturned := 7
        constraintsConsumed := 1, sortsPerformed := 1, sortsSkipped := 1 } ∧
      Counters.Account {} (({} : Scanner).after someCalls).counters
        (({} : Scanner).history someCalls) := by
  have houtcomes : (({} : Scanner).history someCalls).map (·.run.outcome) =
      [.completed ⟨3, 3, 1, 0, true⟩, .rejected (.unknownConstraintColumn 7 2),
        .completed ⟨4, 4, 0, 0, false⟩] := by
    simp only [someCalls, history, respond, scan, run, Prepared.select, arrangeRows,
      RowOrder.sort?_eq_insertionSort]
    decide +kernel
  refine ⟨?_, (counters_after {} someCalls fun scan hscan hout => ?_).1⟩
  · simp only [someCalls, after, List.foldl, respond, scan, run, Prepared.select, arrangeRows,
      RowOrder.sort?_eq_insertionSort]
    decide +kernel
  · have hmem : Outcome.faulted ∈ (({} : Scanner).history someCalls).map (·.run.outcome) :=
      List.mem_map.mpr ⟨scan, hscan, hout⟩
    rw [houtcomes] at hmem
    simp at hmem

/--
What a scan of the run counts are words if its query has fewer constraints than there are words, and
counting in words gives the same numbers if every row has its text.
-/
theorem scanWords_of_mem_history {s : Scanner} {calls : List ScanCall} {scan : Response}
    (hscan : scan ∈ s.history calls) {stats : Stats} (hstats : scan.stats? = some stats)
    (hq : scan.call.query.constraints.length < UInt32.size) :
    stats.AreWords ∧ (scan.call.schema.Interned → ∃ s' : Scanner, scan = s'.respond scan.call ∧
      (s'.scanWords scan.call.schema scan.call.query).run =
        some (.ok (stats, scan.run.calls))) := by
  obtain ⟨s', hs'⟩ := s.mem_history calls scan hscan
  have hout : (s'.respond scan.call).run.outcome = .completed stats :=
    Response.stats?_eq_some_iff.mp (hs' ▸ hstats)
  refine ⟨(describes_of_completed hout).areWords hq, fun hi => ⟨s', hs', ?_⟩⟩
  rw [scanWords_of_completed hi hq hout, hs']
  rfl

theorem account_scanAll (s : Scanner) (logger : Logger) (elapsedMicros : Nat)
    (queries : List (Schema × Query))
    (h : ∀ run ∈ s.scanAll logger elapsedMicros queries, run.outcome ≠ .faulted) :
    Counters.Account s.counters
      ((s.scanAll logger elapsedMicros queries).getLast?.elim s ScanRun.scanner).counters
      (s.history (ScanCall.ofQueries logger elapsedMicros queries)) := by
  rw [scanner_scanAll]
  refine s.account_history _ fun scan hscan => h _ ?_
  rw [scanAll_eq_history]
  exact List.mem_map_of_mem hscan

end Scanner

end Columnar
