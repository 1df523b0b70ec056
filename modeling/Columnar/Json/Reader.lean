import Columnar.Json.Basic
import Columnar.Json.Token

/-! # Reading JSON

A strict reader for RFC 8259 texts. It reads token by token and keeps a stack of the containers
that are still open, so nesting may be as deep as it likes.
-/

namespace Columnar.Json

/-- An open container. Items and members are kept in reverse. -/
inductive Frame where
  | array (items : List Json)
  /-- The value of the member `name` is due. -/
  | object (members : List (Option String × Json)) (name : Option String)

/-- What the reader has seen and what it expects. -/
inductive Reader where
  | value (stack : List Frame)
  | firstItem (stack : List Frame)
  | firstMember (stack : List Frame)
  | key (members : List (Option String × Json)) (stack : List Frame)
  /-- The key of a member has been read and its colon is due. -/
  | colon (members : List (Option String × Json)) (name : Option String) (stack : List Frame)
  | afterItem (items : List Json) (stack : List Frame)
  | afterMember (members : List (Option String × Json)) (stack : List Frame)
  | done (json : Json)

namespace Reader

/-- Hands a finished value to the innermost open container. -/
def put (json : Json) : List Frame → Reader
  | [] => .done json
  | .array items :: stack => .afterItem (json :: items) stack
  | .object members name :: stack => .afterMember ((name, json) :: members) stack

def startValue (stack : List Frame) : Token → Option Reader
  | .null => some (put .null stack)
  | .bool b => some (put (.bool b) stack)
  | .number text => some (put (.number text) stack)
  | .string text => some (put (.string text) stack)
  | .leftBracket => some (.firstItem stack)
  | .leftBrace => some (.firstMember stack)
  | _ => none

/-- Takes one token, unless the grammar has no place for it. -/
def step : Reader → Token → Option Reader
  | .value stack, t => startValue stack t
  | .firstItem stack, .rightBracket => some (put (.array []) stack)
  | .firstItem stack, t => startValue (.array [] :: stack) t
  | .firstMember stack, .rightBrace => some (put (.object []) stack)
  | .firstMember stack, .string name => some (.colon [] name stack)
  | .key members stack, .string name => some (.colon members name stack)
  | .colon members name stack, .colon => some (.value (.object members name :: stack))
  | .afterItem items stack, .comma => some (.value (.array items :: stack))
  | .afterItem items stack, .rightBracket => some (put (.array items.reverse) stack)
  | .afterMember members stack, .comma => some (.key members stack)
  | .afterMember members stack, .rightBrace => some (put (.object members.reverse) stack)
  | _, _ => none

def run (reader : Reader) (cs : List Char) : Option Json :=
  match cs with
  | [] =>
    match reader with
    | .done json => some json
    | _ => none
  | c :: cs =>
    if isBlank c then run reader cs
    else
      match _h : nextToken? (c :: cs) with
      | none => none
      | some (t, rest) =>
        match reader.step t with
        | none => none
        | some next => run next rest
termination_by cs.length
decreasing_by
  · simp
  · exact length_nextToken? (by assumption)

end Reader

def read? (text : String) : Option Json := (Reader.value []).run text.toList

end Columnar.Json
