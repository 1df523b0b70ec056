import Columnar.Log.Entry

/-! # Scan options

Every option defaults to production behaviour. The baseline turns the optimisations off, so that
their results can be compared with those of the plain path.
-/

namespace Columnar

inductive ConfigError where
  | malformed
  | unknownSeverity (name : String)
  deriving DecidableEq

/-- The text of an error, without what a parser has to say about a malformed document. -/
def ConfigError.message : ConfigError → String
  | .malformed => "Invalid config document"
  | .unknownSeverity name => "Unknown log severity: " ++ name

structure Config where
  /-- Whether bounds of columns shrink the range of candidate rows. -/
  boundPruning : Bool := true
  /-- Whether rows are left unsorted when their natural order will do. -/
  naturalOrderSortElision : Bool := true
  logSeverity : String := Severity.warn.name
  deriving DecidableEq

namespace Config

def enabled : Config := {}

def baseline : Config := { boundPruning := false, naturalOrderSortElision := false }

def severity (c : Config) : Except ConfigError Severity :=
  match Severity.ofName? c.logSeverity with
  | some severity => .ok severity
  | none => .error (.unknownSeverity c.logSeverity)

/-- Gives the logger the configured threshold, once the name of that is known to be one. -/
def install (c : Config) : EStateM ConfigError Logger Unit := do
  let severity ← MonadExcept.ofExcept c.severity
  modify (·.setThreshold severity)

/-- The logger with the configured threshold. -/
def installLogging (c : Config) (l : Logger) : Except ConfigError Logger :=
  match c.install.run l with
  | .ok _ l => .ok l
  | .error e _ => .error e

end Config

end Columnar
