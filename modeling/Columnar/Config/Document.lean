import Columnar.Config.Basic
import Columnar.Json.Reader
import Columnar.Json.Text

/-! # Configuration documents

A configuration is written as a JSON object with all options. A document may leave options out,
which then have their defaults, and may hold members that are no options. It may also be an array
that gives the options by position.
-/

namespace Columnar.Config

/-- The JSON object of a configuration, its options in order. -/
def toJson (c : Config) : String :=
  let bool (value : Bool) := (if value then "true" else "false").toList
  String.ofList <| Json.minimal.object
    [("bound_pruning", bool c.boundPruning),
     ("natural_order_sort_elision", bool c.naturalOrderSortElision),
     ("log_severity", Json.minimal.quote c.logSeverity)]

/-- An option of a document: its default if it is missing, and nothing if its type is wrong. -/
def option? {α : Type} (default : α) (read? : Json → Option α) : Option Json → Option α
  | none => some default
  | some value => read? value

def ofOptions? (boundPruning naturalOrderSortElision logSeverity : Option Json) :
    Option Config := do
  let defaults : Config := {}
  return {
    boundPruning := ← option? defaults.boundPruning Json.asBool? boundPruning
    naturalOrderSortElision :=
      ← option? defaults.naturalOrderSortElision Json.asBool? naturalOrderSortElision
    logSeverity := ← option? defaults.logSeverity Json.asText? logSeverity }

/-- The configuration in a JSON value. All keys of an object are text. -/
def ofValue? : Json → Option Config
  | .object members => do
    guard (members.all (·.1.isSome))
    ofOptions? (← Json.uniqueMember? members "bound_pruning")
      (← Json.uniqueMember? members "natural_order_sort_elision")
      (← Json.uniqueMember? members "log_severity")
  | .array items => do
    guard (items.length ≤ 3)
    ofOptions? items[0]? items[1]? items[2]?
  | _ => none

/-- The configuration in a document, whose severity name is checked last. -/
def ofJson (text : String) : Except ConfigError Config :=
  match (Json.read? text).bind ofValue? with
  | none => .error .malformed
  | some config => config.severity.map fun _ => config

end Columnar.Config
