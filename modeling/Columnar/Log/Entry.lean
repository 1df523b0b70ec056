import Columnar.Json.Text
import Columnar.Log.Severity
import Columnar.Text

/-! # Log entries

A log entry is written as one line that holds one JSON object: the event, the severity, and then the
fields sorted by key. A logger writes the entries that reach its threshold and drops the others.
-/

namespace Columnar

/-- What a log entry tells beside its event: pairs of key and value. -/
abbrev Fields := List (String × String)

structure LogEntry where
  severity : Severity
  stream : Stream
  event : String
  fields : Fields := []
  deriving DecidableEq

namespace LogEntry

def ofSeverity (severity : Severity) (event : String) (fields : Fields) : LogEntry :=
  ⟨severity, severity.stream, event, fields⟩

/--
Control characters never reach a log raw: apart from line ends, carriage returns and tabs they are
written by their code, those beyond ASCII too.
-/
def escaping : Json.Escaping where
  short?
    | '"' => some '"'
    | '\\' => some '\\'
    | '\n' => some 'n'
    | '\r' => some 'r'
    | '\t' => some 't'
    | _ => none
  byCode c := decide (c.toNat < 0x20 ∨ 0x7f ≤ c.toNat ∧ c.toNat ≤ 0x9f)

/-- The fields sorted by key, those of one key in their given order. -/
def sortedFields (e : LogEntry) : Fields :=
  e.fields.mergeSort fun a b => (Text.compare a.1 b.1).isLE

/-- The members of the object that an entry is written as. -/
def members (e : LogEntry) : Fields :=
  ("event", e.event) :: ("severity", e.severity.name) :: e.sortedFields

def object (e : LogEntry) : List Char :=
  escaping.object (e.members.map fun m => (m.1, escaping.quote m.2))

def line (e : LogEntry) : String := String.ofList (e.object ++ ['\n'])

end LogEntry

/-- A log with a threshold below which entries are dropped. -/
structure Logger where
  threshold : Severity := .warn
  deriving DecidableEq

namespace Logger

/-- Sets the threshold, which a process keeps by its rank. -/
def setThreshold (l : Logger) (severity : Severity) : Logger :=
  { l with threshold := .ofRank severity.rank }

@[simp] theorem threshold_setThreshold (l : Logger) (severity : Severity) :
    (l.setThreshold severity).threshold = severity :=
  Severity.ofRank_rank severity

def enabled (l : Logger) (severity : Severity) : Bool :=
  decide (l.threshold.rank ≤ severity.rank)

def log (l : Logger) (e : LogEntry) : List LogEntry := if l.enabled e.severity then [e] else []

end Logger

end Columnar
