import Columnar.Json.Text

/-! # Counters

A scanner counts over all of its scans. The counters are 64-bit words that wrap.
-/

namespace Columnar

/--
What one completed scan did, in natural numbers. They are numbers of 32 bits, those of constraints
as long as the query has fewer than `UInt32.size` of these.
-/
structure Stats where
  /-- Rows in the range that bounds left. -/
  rowsConsidered : Nat
  /-- Rows that passed the filters and were reported. -/
  rowsReturned : Nat
  /-- Constraints answered by bounds alone. -/
  constraintsConsumed : Nat
  /-- Constraints tested row by row. -/
  filtersApplied : Nat
  sorted : Bool
  deriving DecidableEq

structure Counters where
  scansExecuted : UInt64 := 0
  scansFailed : UInt64 := 0
  rowsConsidered : UInt64 := 0
  rowsReturned : UInt64 := 0
  constraintsConsumed : UInt64 := 0
  filtersApplied : UInt64 := 0
  sortsPerformed : UInt64 := 0
  sortsSkipped : UInt64 := 0
  deriving DecidableEq

namespace Counters

def addScanExecuted (c : Counters) : Counters := { c with scansExecuted := c.scansExecuted + 1 }

def addScanFailed (c : Counters) : Counters := { c with scansFailed := c.scansFailed + 1 }

def addRowsConsidered (c : Counters) (rows : UInt64) : Counters :=
  { c with rowsConsidered := c.rowsConsidered + rows }

def addRowsReturned (c : Counters) (rows : UInt64) : Counters :=
  { c with rowsReturned := c.rowsReturned + rows }

def addConstraintsConsumed (c : Counters) (count : UInt64) : Counters :=
  { c with constraintsConsumed := c.constraintsConsumed + count }

def addFiltersApplied (c : Counters) (count : UInt64) : Counters :=
  { c with filtersApplied := c.filtersApplied + count }

def addSortPerformed (c : Counters) : Counters := { c with sortsPerformed := c.sortsPerformed + 1 }

def addSortSkipped (c : Counters) : Counters := { c with sortsSkipped := c.sortsSkipped + 1 }

/-- Counts a completed scan; its sort has been counted when it was decided on. -/
def record (c : Counters) (stats : Stats) : Counters :=
  ((((c.addScanExecuted).addRowsConsidered (.ofNat stats.rowsConsidered)).addRowsReturned
    (.ofNat stats.rowsReturned)).addConstraintsConsumed
    (.ofNat stats.constraintsConsumed)).addFiltersApplied (.ofNat stats.filtersApplied)

def toList (c : Counters) : List (String × UInt64) :=
  [("scans_executed", c.scansExecuted),
   ("scans_failed", c.scansFailed),
   ("rows_considered", c.rowsConsidered),
   ("rows_returned", c.rowsReturned),
   ("constraints_consumed", c.constraintsConsumed),
   ("filters_applied", c.filtersApplied),
   ("sorts_performed", c.sortsPerformed),
   ("sorts_skipped", c.sortsSkipped)]

def toJson (c : Counters) : String :=
  String.ofList <|
    Json.minimal.object (c.toList.map fun (name, count) => (name, Nat.toDigits 10 count.toNat))

end Counters

end Columnar
