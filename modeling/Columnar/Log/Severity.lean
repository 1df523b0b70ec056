/-! # Severities

The levels of log lines, from the detail of a single scan up to broken invariants. Problems go to
the error stream and everything else to the output stream.
-/

namespace Columnar

inductive Severity where
  | trace
  | info
  | warn
  | error
  | fatal
  deriving DecidableEq

inductive Stream where
  | output
  | error
  deriving DecidableEq

namespace Severity

def rank : Severity → Nat
  | .trace => 0
  | .info => 1
  | .warn => 2
  | .error => 3
  | .fatal => 4

/-- The severity of a rank; ranks beyond those of all severities are fatal. -/
def ofRank : Nat → Severity
  | 0 => .trace
  | 1 => .info
  | 2 => .warn
  | 3 => .error
  | _ => .fatal

@[simp] theorem ofRank_rank (s : Severity) : ofRank s.rank = s := by
  cases s <;> rfl

def name : Severity → String
  | .trace => "TRACE"
  | .info => "INFO"
  | .warn => "WARN"
  | .error => "ERROR"
  | .fatal => "FATAL"

/-- The severity with the given name, in any case of its ASCII letters. -/
def ofName? (name : String) : Option Severity :=
  match String.ofList (name.toList.map Char.toUpper) with
  | "TRACE" => some .trace
  | "INFO" => some .info
  | "WARN" => some .warn
  | "ERROR" => some .error
  | "FATAL" => some .fatal
  | _ => none

def stream : Severity → Stream
  | .trace | .info | .warn => .output
  | .error | .fatal => .error

end Severity

end Columnar
