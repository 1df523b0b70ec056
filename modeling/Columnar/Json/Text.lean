/-! # Writing JSON

JSON texts are written without blanks. Which characters of a string are escaped, beyond those that
must be, is a decision of the format that writes it.
-/

namespace Columnar.Json

/-- The escapes of a format. -/
structure Escaping where
  /-- The letter that follows the backslash, for a character with a short escape. -/
  short? : Char → Option Char
  /-- The characters that are written by their code unless they have a short escape. -/
  byCode : Char → Bool

/-- The four lowercase hexadecimal digits of a code. -/
def hexDigits (code : Nat) : List Char :=
  [code / 4096 % 16, code / 256 % 16, code / 16 % 16, code % 16].map Nat.digitChar

def Escaping.escape (e : Escaping) (c : Char) : List Char :=
  match e.short? c with
  | some letter => ['\\', letter]
  | none => if e.byCode c then '\\' :: 'u' :: hexDigits c.toNat else [c]

def Escaping.quote (e : Escaping) (s : String) : List Char :=
  '"' :: s.toList.flatMap e.escape ++ ['"']

/-- A member whose value is given as JSON text. -/
def Escaping.member (e : Escaping) (m : String × List Char) : List Char :=
  e.quote m.1 ++ ':' :: m.2

/-- An object whose values are given as JSON text, with its members in the given order. -/
def Escaping.object (e : Escaping) (members : List (String × List Char)) : List Char :=
  '{' :: [','].intercalate (members.map e.member) ++ ['}']

/-- The escapes that RFC 8259 demands, short where it defines a short one. -/
def minimal : Escaping where
  short?
    | '"' => some '"'
    | '\\' => some '\\'
    | '\x08' => some 'b'
    | '\t' => some 't'
    | '\n' => some 'n'
    | '\x0c' => some 'f'
    | '\r' => some 'r'
    | _ => none
  byCode c := decide (c.toNat < 0x20)

end Columnar.Json
