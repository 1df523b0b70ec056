import Columnar.Config.Basic
import Columnar.Scan.Prepared

/-! # Scan plans

With pruning, the bounds of all constraints are intersected into one range of candidate rows, and
the constraints that their bounds answer in full need no filter. Without pruning the range is the
whole table and every constraint is left to filter by.
-/

namespace Columnar

/-- The rows a scan considers and what is left to test on them. -/
structure Plan where
  range : Bounds
  /-- The number of constraints that bounds answer in full. -/
  consumed : Nat
  /-- The constraints to filter by, in the order of the query. -/
  residual : List Condition

def Condition.bounds (c : Condition) : Bounds := c.column.bounds c.op c.value

/-- The plan for the constraints of a query on a table of `rows` rows. -/
def Plan.ofConditions (config : Config) (rows : Nat) (conditions : List Condition) : Plan :=
  if config.boundPruning then
    { range := conditions.foldl (fun range c => range.intersect c.bounds) (.full rows)
      consumed := conditions.countP (·.bounds.consumed)
      residual := conditions.filter (!·.bounds.consumed) }
  else { range := .full rows, consumed := 0, residual := conditions }

def Plan.candidates (p : Plan) : Candidates := .ofRange p.range.lo p.range.hi

end Columnar
