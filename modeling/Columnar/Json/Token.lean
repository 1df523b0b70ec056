/-! # JSON tokens

The tokens of RFC 8259. A string is read in two steps: its elements are raw characters and the
16-bit units of its `\u` escapes, and units that form surrogate pairs are then joined. A string
whose surrogates do not pair up is a well-formed token that has no text.
-/

namespace Columnar.Json

inductive Token where
  | leftBrace
  | rightBrace
  | leftBracket
  | rightBracket
  | colon
  | comma
  | null
  | bool (value : Bool)
  | number (text : String)
  | string (text : Option String)
  deriving DecidableEq

inductive Element where
  | char (value : Char)
  /-- A 16-bit unit given by its code. -/
  | unit (code : Nat)
  deriving DecidableEq

def hexDigit? (c : Char) : Option Nat :=
  if '0' ≤ c ∧ c ≤ '9' then some (c.toNat - '0'.toNat)
  else if 'a' ≤ c ∧ c ≤ 'f' then some (c.toNat - 'a'.toNat + 10)
  else if 'A' ≤ c ∧ c ≤ 'F' then some (c.toNat - 'A'.toNat + 10)
  else none

/-- The character of an escape of one letter. -/
def unescape? : Char → Option Char
  | '"' => some '"'
  | '\\' => some '\\'
  | '/' => some '/'
  | 'b' => some '\x08'
  | 'f' => some '\x0c'
  | 'n' => some '\n'
  | 'r' => some '\r'
  | 't' => some '\t'
  | _ => none

/-- The elements of a string up to its closing quote, and what follows the quote. -/
def scanString : List Char → Option (List Element × List Char)
  | [] => none
  | '"' :: rest => some ([], rest)
  | '\\' :: 'u' :: a :: b :: c :: d :: rest => do
    let code := (((← hexDigit? a) * 16 + (← hexDigit? b)) * 16 + (← hexDigit? c)) * 16 +
      (← hexDigit? d)
    let (elements, rest) ← scanString rest
    return (.unit code :: elements, rest)
  | '\\' :: letter :: rest => do
    let c ← unescape? letter
    let (elements, rest) ← scanString rest
    return (.char c :: elements, rest)
  | c :: rest =>
    if c.toNat < 0x20 then none
    else do
      let (elements, rest) ← scanString rest
      return (.char c :: elements, rest)

def isHighSurrogate (code : Nat) : Bool := decide (0xd800 ≤ code) && decide (code < 0xdc00)

def isLowSurrogate (code : Nat) : Bool := decide (0xdc00 ≤ code) && decide (code < 0xe000)

/-- The characters of a string, if its surrogates pair up. -/
def joinElements : List Element → Option (List Char)
  | [] => some []
  | .char c :: rest => (joinElements rest).map (c :: ·)
  | .unit high :: .unit low :: rest =>
    if isHighSurrogate high then
      if isLowSurrogate low then
        let code := 0x10000 + (high - 0xd800) * 0x400 + (low - 0xdc00)
        (joinElements rest).map (Char.ofNat code :: ·)
      else none
    else if isLowSurrogate high then none
    else (joinElements (.unit low :: rest)).map (Char.ofNat high :: ·)
  | .unit code :: rest =>
    if isHighSurrogate code || isLowSurrogate code then none
    else (joinElements rest).map (Char.ofNat code :: ·)

/-- The leading decimal digits, of which there must be some, and what follows them. -/
def scanDigits (cs : List Char) : Option (List Char × List Char) :=
  match cs.takeWhile Char.isDigit with
  | [] => none
  | digits => some (digits, cs.dropWhile Char.isDigit)

/-- What follows the fraction of a number, which may be missing. -/
def scanFraction : List Char → Option (List Char)
  | '.' :: rest => (scanDigits rest).map Prod.snd
  | rest => some rest

/-- What follows the exponent of a number, which may be missing. -/
def scanExponent : List Char → Option (List Char)
  | e :: rest =>
    if e = 'e' ∨ e = 'E' then
      match rest with
      | sign :: digits =>
        if sign = '+' ∨ sign = '-' then (scanDigits digits).map Prod.snd
        else (scanDigits rest).map Prod.snd
      | [] => none
    else some (e :: rest)
  | [] => some []

/-- What follows a number without its sign. A leading zero stands alone. -/
def scanUnsigned (cs : List Char) : Option (List Char) :=
  match scanDigits cs with
  | some (['0'], rest) => (scanFraction rest).bind scanExponent
  | some ('0' :: _, _) => none
  | some (_, rest) => (scanFraction rest).bind scanExponent
  | none => none

/-- The first token and what follows it. The text starts with a character that is not blank. -/
def nextToken? : List Char → Option (Token × List Char)
  | '{' :: rest => some (.leftBrace, rest)
  | '}' :: rest => some (.rightBrace, rest)
  | '[' :: rest => some (.leftBracket, rest)
  | ']' :: rest => some (.rightBracket, rest)
  | ':' :: rest => some (.colon, rest)
  | ',' :: rest => some (.comma, rest)
  | 'n' :: 'u' :: 'l' :: 'l' :: rest => some (.null, rest)
  | 't' :: 'r' :: 'u' :: 'e' :: rest => some (.bool true, rest)
  | 'f' :: 'a' :: 'l' :: 's' :: 'e' :: rest => some (.bool false, rest)
  | '"' :: rest => do
    let (elements, rest) ← scanString rest
    return (.string ((joinElements elements).map String.ofList), rest)
  | cs => do
    let rest ← scanUnsigned (if cs.head? = some '-' then cs.tail else cs)
    return (.number (String.ofList (cs.take (cs.length - rest.length))), rest)

/-- The characters that may stand between tokens. -/
def isBlank (c : Char) : Bool := c == ' ' || c == '\t' || c == '\n' || c == '\r'

theorem length_scanString {cs rest : List Char} {elements : List Element}
    (h : scanString cs = some (elements, rest)) : rest.length < cs.length := by
  fun_induction scanString cs generalizing elements rest with
  | case1 => simp at h
  | case2 => simp_all
  | case3 a b c d tail ih =>
    simp only [bind, Option.bind_eq_some_iff, pure, Option.some.injEq, Prod.mk.injEq] at h
    obtain ⟨_, _, _, _, _, _, _, _, ⟨elements', rest'⟩, hs, _, rfl⟩ := h
    have := ih hs
    simp only [List.length_cons]
    omega
  | case4 letter tail _ ih =>
    simp only [bind, Option.bind_eq_some_iff, pure, Option.some.injEq, Prod.mk.injEq] at h
    obtain ⟨_, _, ⟨elements', rest'⟩, hs, _, rfl⟩ := h
    have := ih hs
    simp only [List.length_cons]
    omega
  | case5 => simp at h
  | case6 c tail _ _ _ _ ih =>
    simp only [bind, Option.bind_eq_some_iff, pure, Option.some.injEq, Prod.mk.injEq] at h
    obtain ⟨⟨elements', rest'⟩, hs, _, rfl⟩ := h
    have := ih hs
    simp only [List.length_cons]
    omega

theorem length_scanDigits {cs digits rest : List Char} (h : scanDigits cs = some (digits, rest)) :
    rest.length < cs.length := by
  have hsplit :=
    congrArg List.length (List.takeWhile_append_dropWhile (p := Char.isDigit) (l := cs))
  unfold scanDigits at h
  split at h
  · simp at h
  · next heq =>
    simp only [Option.some.injEq, Prod.mk.injEq] at h
    obtain ⟨rfl, rfl⟩ := h
    have := List.length_pos_iff.mpr heq
    simp only [List.length_append] at hsplit
    omega

theorem length_scanFraction {cs rest : List Char} (h : scanFraction cs = some rest) :
    rest.length ≤ cs.length := by
  unfold scanFraction at h
  split at h
  · simp only [Option.map_eq_some_iff] at h
    obtain ⟨⟨digits, rest'⟩, hd, rfl⟩ := h
    have := length_scanDigits hd
    simp only [List.length_cons]
    omega
  · simp_all

theorem length_scanExponent {cs rest : List Char} (h : scanExponent cs = some rest) :
    rest.length ≤ cs.length := by
  unfold scanExponent at h
  split at h
  · split at h
    · split at h
      · split at h <;>
        · simp only [Option.map_eq_some_iff] at h
          obtain ⟨⟨digits, rest'⟩, hd, rfl⟩ := h
          have := length_scanDigits hd
          simp only [List.length_cons] at *
          omega
      · simp at h
    · simp_all
  · simp_all

theorem length_scanUnsigned {cs rest : List Char} (h : scanUnsigned cs = some rest) :
    rest.length < cs.length := by
  have tail {digits start : List Char} (hd : scanDigits cs = some (digits, start))
      (hs : (scanFraction start).bind scanExponent = some rest) : rest.length < cs.length := by
    obtain ⟨middle, hf, he⟩ := Option.bind_eq_some_iff.mp hs
    exact Nat.lt_of_le_of_lt (Nat.le_trans (length_scanExponent he) (length_scanFraction hf))
      (length_scanDigits hd)
  unfold scanUnsigned at h
  split at h
  · next hd => exact tail hd h
  · simp at h
  · next hd => exact tail hd h
  · simp at h

theorem length_nextToken? {cs rest : List Char} {t : Token} (h : nextToken? cs = some (t, rest)) :
    rest.length < cs.length := by
  unfold nextToken? at h
  split at h
  case h_10 =>
    simp only [bind, Option.bind_eq_some_iff, pure, Option.some.injEq, Prod.mk.injEq] at h
    obtain ⟨⟨elements, rest'⟩, hs, _, rfl⟩ := h
    have := length_scanString hs
    simp only [List.length_cons]
    omega
  case h_11 =>
    simp only [bind, Option.bind_eq_some_iff, pure, Option.some.injEq, Prod.mk.injEq] at h
    obtain ⟨rest', hs, _, rfl⟩ := h
    have := length_scanUnsigned hs
    split at this
    · rw [List.length_tail] at this
      omega
    · omega
  all_goals
    simp only [Option.some.injEq, Prod.mk.injEq] at h
    obtain ⟨_, rfl⟩ := h
    simp only [List.length_cons]
    omega

end Columnar.Json
