import Columnar.Log.Entry

/-! # Observation scopes

A scope follows one operation through its life: it logs the begin, and later either completion,
failure or, if it is closed without an outcome, that it stayed incomplete. The scope's own fields
are repeated on all of its lines.
-/

namespace Columnar

structure Scope where
  name : String
  fields : Fields := []
  /-- Whether completion or failure was logged. -/
  finished : Bool := false
  deriving DecidableEq

namespace Scope

def eventName (s : Scope) (stage : String) : String := s.name ++ "_" ++ stage

/-- The entry of one stage: the scope's fields and then those of the stage. -/
def stageEntry (s : Scope) (severity : Severity) (stage : String) (extra : Fields) : LogEntry :=
  .ofSeverity severity (s.eventName stage) (s.fields ++ extra)

def begun (s : Scope) : LogEntry := s.stageEntry .trace "BEGIN" []

/-- Ends the scope with success after a number of microseconds. -/
def complete (s : Scope) (extra : Fields) (elapsedMicros : Nat) : Scope × LogEntry :=
  ({ s with finished := true },
    s.stageEntry .info "COMPLETE" (extra ++ [("elapsed_us", Nat.repr elapsedMicros)]))

def fail (s : Scope) (reason : String) (fatal : Bool) : Scope × LogEntry :=
  ({ s with finished := true },
    s.stageEntry (if fatal then .fatal else .error) "FAILED" [("reason", reason)])

/-- The entries logged when the scope is closed: one, unless its outcome is known. -/
def close (s : Scope) : List LogEntry :=
  if s.finished then []
  else [s.stageEntry .warn "INCOMPLETE" [("reason", "scope dropped without completion")]]

end Scope

end Columnar
