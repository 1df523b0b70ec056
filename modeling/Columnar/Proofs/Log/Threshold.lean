import Mathlib.Data.List.Forall2
import Columnar.Proofs.Log.Line
import Columnar.Proofs.Scan.Answer

/-! # Scans under a log threshold

Logging observes a scan and takes no part in it. A scan under a threshold writes what it writes
without one, less the entries below the threshold, and nothing else that it does depends on it. The
time that a scan takes shows in one field of its last entry alone.
-/

namespace Columnar

namespace Logger

variable (l : Logger)

/-- The logger that writes every entry. -/
def all : Logger := ⟨.trace⟩

theorem enabled_all (severity : Severity) : all.enabled severity = true :=
  decide_eq_true (Nat.zero_le _)

theorem flatMap_log (entries : List LogEntry) :
    entries.flatMap l.log = entries.filter (l.enabled ·.severity) := by
  induction entries with
  | nil => rfl
  | cons e entries ih =>
    rw [List.flatMap_cons, ih, List.filter_cons, log]
    split <;> rfl

theorem log_eq_filter (e : LogEntry) : l.log e = [e].filter (l.enabled ·.severity) := by
  rw [← flatMap_log, List.flatMap_singleton]

theorem flatMap_log_all (entries : List LogEntry) : entries.flatMap all.log = entries := by
  rw [flatMap_log]
  exact List.filter_eq_self.mpr fun _ _ => enabled_all _

theorem log_all (e : LogEntry) : all.log e = [e] := if_pos (enabled_all _)

end Logger

/-- The entries that a scan writes to a stream, in their order. -/
def ScanRun.written (r : ScanRun) (stream : Stream) : List LogEntry :=
  r.entries.filter (·.stream = stream)

/-- Whether two entries are the same line but for the value of one field that both have. -/
structure LogEntry.SameBut (key : String) (a b : LogEntry) : Prop where
  severity : a.severity = b.severity
  stream : a.stream = b.stream
  text : LogEntry.SameTextBut key a b

theorem LogEntry.SameBut.refl (key : String) (e : LogEntry) : SameBut key e e :=
  ⟨rfl, rfl, .inl rfl⟩

theorem Scope.complete_sameBut (s : Scope) (extra : Fields) (elapsedMicros elapsed : Nat) :
    LogEntry.SameBut "elapsed_us" (s.complete extra elapsedMicros).2
      (s.complete extra elapsed).2 := by
  have hentry (micros : Nat) : (s.complete extra micros).2 =
      { s.stageEntry .info "COMPLETE" extra with fields :=
          (s.stageEntry .info "COMPLETE" extra).fields ++ [("elapsed_us", Nat.repr micros)] } :=
    congrArg (LogEntry.mk _ _ _) (List.append_assoc _ _ _).symm
  rw [hentry elapsedMicros, hentry elapsed]
  exact ⟨rfl, rfl, LogEntry.sameTextBut_concat _ _ _ _⟩

namespace Scanner

variable (s : Scanner) (logger : Logger) (schema : Schema) (query : Query)

/-! ## Thresholds -/

theorem run_eq : s.run logger schema query = { s.run .all schema query with
    entries := (s.run .all schema query).entries.filter (logger.enabled ·.severity) } := by
  unfold run
  split
  · rfl
  · dsimp only
    rw [Logger.flatMap_log, Logger.flatMap_log_all]
    split <;> rfl

/-- A scan under a threshold is the scan without one, less the entries below the threshold. -/
theorem scan_eq (elapsedMicros : Nat) : s.scan logger schema query elapsedMicros =
    { s.scan .all schema query elapsedMicros with
      entries := (s.scan .all schema query elapsedMicros).entries.filter
        (logger.enabled ·.severity) } := by
  have hrun := s.run_eq logger schema query
  rcases hresult : (s.run .all schema query).result with (error | _) | stats <;>
    simp only [scan, hrun, hresult, Logger.log_eq_filter logger, Logger.log_all,
      Logger.flatMap_log logger, Logger.flatMap_log_all, List.filter_append]

/-! ## The time of a scan -/

theorem scan_elapsed (elapsedMicros elapsed : Nat) :
    (s.scan .all schema query elapsed).outcome =
        (s.scan .all schema query elapsedMicros).outcome ∧
      (s.scan .all schema query elapsed).calls = (s.scan .all schema query elapsedMicros).calls ∧
      (s.scan .all schema query elapsed).scanner =
        (s.scan .all schema query elapsedMicros).scanner ∧
      List.Forall₂ (LogEntry.SameBut "elapsed_us") (s.scan .all schema query elapsed).entries
        (s.scan .all schema query elapsedMicros).entries := by
  have hsame (entries : List LogEntry) :
      List.Forall₂ (LogEntry.SameBut "elapsed_us") entries entries :=
    List.forall₂_same.mpr fun _ _ => .refl _ _
  rcases hresult : (s.run .all schema query).result with (error | _) | stats
  -- Only the entry of a completed scan tells its time.
  · simp only [scan, hresult, hsame, and_self]
  · simp only [scan, hresult, hsame, and_self]
  · simp only [scan, hresult, Logger.flatMap_log_all, true_and]
    exact List.rel_append (hsame _) (.cons (Scope.complete_sameBut _ _ _ _) .nil)

/-! ## Two runs -/

variable {s schema query}

/--
Two scans of a table that differ in the threshold of the log and in the time they take do the same,
however they end. To each stream the one with the higher threshold writes the lines of the other
that reach its threshold, the same text but for the time.
-/
theorem scan_threshold (low high : Severity) (h : low.rank ≤ high.rank)
    (elapsedMicros elapsed : Nat) :
    (s.scan ⟨high⟩ schema query elapsed).outcome =
        (s.scan ⟨low⟩ schema query elapsedMicros).outcome ∧
      (s.scan ⟨high⟩ schema query elapsed).calls =
        (s.scan ⟨low⟩ schema query elapsedMicros).calls ∧
      (s.scan ⟨high⟩ schema query elapsed).scanner =
        (s.scan ⟨low⟩ schema query elapsedMicros).scanner ∧
      ∀ stream, List.Forall₂ (LogEntry.SameTextBut "elapsed_us")
        ((s.scan ⟨high⟩ schema query elapsed).written stream)
        (((s.scan ⟨low⟩ schema query elapsedMicros).written stream).filter fun e =>
          decide (high.rank ≤ e.severity.rank)) := by
  obtain ⟨houtcome, hcalls, hscanner, hentries⟩ := s.scan_elapsed schema query elapsedMicros elapsed
  rw [s.scan_eq ⟨high⟩, s.scan_eq ⟨low⟩]
  refine ⟨houtcome, hcalls, hscanner, fun stream => ?_⟩
  -- What reaches the higher threshold reaches the lower one, so filtering by both is one filter.
  have hboth : (fun e : LogEntry => decide (high.rank ≤ e.severity.rank) &&
      (decide (e.stream = stream) && (⟨low⟩ : Logger).enabled e.severity)) =
      fun e => decide (e.stream = stream) && (⟨high⟩ : Logger).enabled e.severity := by
    funext e
    rw [Bool.eq_iff_iff]
    simp only [Logger.enabled, Bool.and_eq_true, decide_eq_true_eq]
    constructor
    · rintro ⟨hhigh, hstream, -⟩
      exact ⟨hstream, hhigh⟩
    · rintro ⟨hstream, hhigh⟩
      exact ⟨hhigh, hstream, h.trans hhigh⟩
  simp only [ScanRun.written, List.filter_filter, hboth]
  refine (List.rel_filter (fun a b hab => ?_) hentries).imp fun _ _ hab => hab.text
  simp only [hab.severity, hab.stream]

theorem scan_threshold_latest :
    ((({} : Scanner).scan ⟨.info⟩ readings latest 5).written .output).map (·.event) =
        ["SCAN_COMPLETE"] ∧
      List.Forall₂ (LogEntry.SameTextBut "elapsed_us")
        ((({} : Scanner).scan ⟨.info⟩ readings latest 5).written .output)
        (((({} : Scanner).scan ⟨.trace⟩ readings latest 7).written .output).filter fun e =>
          decide (Severity.info.rank ≤ e.severity.rank)) := by
  have h : Severity.trace.rank ≤ Severity.info.rank := by decide
  refine ⟨?_, (scan_threshold .trace .info h 7 5).2.2.2 .output⟩
  simp only [scan, run, Prepared.select, arrangeRows, RowOrder.sort?_eq_insertionSort]
  decide +kernel

end Scanner

end Columnar
