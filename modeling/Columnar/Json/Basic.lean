/-! # JSON values

A JSON value as it was read: numbers keep their text, objects keep their members in order with
repeated keys, and a string whose surrogates do not pair up has no text.
-/

namespace Columnar

inductive Json where
  | null
  | bool (value : Bool)
  | number (text : String)
  | string (text : Option String)
  | array (items : List Json)
  | object (members : List (Option String × Json))

namespace Json

/-- A member of an object, unless it is missing; an object that repeats it has none. -/
def uniqueMember? (members : List (Option String × Json)) (name : String) :
    Option (Option Json) :=
  match members.filter (·.1 == some name) with
  | [] => some none
  | [(_, value)] => some (some value)
  | _ => none

def asBool? : Json → Option Bool
  | .bool value => some value
  | _ => none

def asText? : Json → Option String
  | .string text => text
  | _ => none

end Json

end Columnar
