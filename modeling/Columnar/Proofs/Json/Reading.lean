import Mathlib.Data.List.Forall2
import Columnar.Json.Reader
import Columnar.Json.Text

/-! # Reading what was written

A format is reversible if its escapes are escapes of RFC 8259 and no character that needs one is
written raw. What such a format writes for a text is read as this text and nothing more, whatever
follows, so an object is read back member by member.
-/

namespace Columnar.Json

/-! ## Strings -/

theorem hexDigit?_digitChar {digit : Nat} (h : digit < 16) :
    hexDigit? (Nat.digitChar digit) = some digit := by
  have hall : ∀ digit < 16, hexDigit? (Nat.digitChar digit) = some digit := by decide
  exact hall digit h

/-- A character from below the surrogates, given by its code, stands for itself. -/
theorem joinElements_unit {c : Char} (h : c.toNat < 0xd800) (elements : List Element) :
    joinElements (.unit c.toNat :: elements) = (joinElements elements).map (c :: ·) := by
  have hhigh : isHighSurrogate c.toNat = false := by
    simp only [isHighSurrogate, Bool.and_eq_false_iff, decide_eq_false_iff_not]
    omega
  have hlow : isLowSurrogate c.toNat = false := by
    simp only [isLowSurrogate, Bool.and_eq_false_iff, decide_eq_false_iff_not]
    omega
  match elements with
  | [] => simp [joinElements, hhigh, hlow, Char.ofNat_toNat]
  | .char d :: rest => simp [joinElements, hhigh, hlow, Char.ofNat_toNat]
  | .unit low :: rest => rw [joinElements]; simp [hhigh, hlow, Char.ofNat_toNat]

namespace Escaping

/-- Whether readers undo the escapes of a format and take all other characters as they are. -/
structure Reversible (e : Escaping) : Prop where
  short : ∀ c letter, e.short? c = some letter → unescape? letter = some c
  byCode : ∀ c, e.short? c = none → e.byCode c = true → c.toNat < 0xd800
  raw : ∀ c, e.short? c = none → e.byCode c = false → c ≠ '"' ∧ c ≠ '\\' ∧ 0x20 ≤ c.toNat

/-- What a character is read as before surrogates are joined. -/
def element (e : Escaping) (c : Char) : Element :=
  if (e.short? c).isNone && e.byCode c then .unit c.toNat else .char c

variable {e : Escaping}

theorem Reversible.scanString_escape (h : e.Reversible) (c : Char) (rest : List Char) :
    scanString (e.escape c ++ rest) =
      (scanString rest).map fun read => (e.element c :: read.1, read.2) := by
  rw [escape, element]
  split
  · rename_i letter hshort
    have hletter := h.short c letter hshort
    have hne : letter ≠ 'u' := by
      rintro rfl
      cases hletter
    cases hread : scanString rest <;> simp [scanString, hne, hletter, hshort, hread]
  · rename_i hshort
    split
    · rename_i hcode
      have hdigits : ((c.toNat / 4096 % 16 * 16 + c.toNat / 256 % 16) * 16 + c.toNat / 16 % 16) * 16
          + c.toNat % 16 = c.toNat := by
        have := h.byCode c hshort hcode
        omega
      have hdigit (n : Nat) : hexDigit? (Nat.digitChar (n % 16)) = some (n % 16) :=
        hexDigit?_digitChar (Nat.mod_lt n (by decide))
      cases hread : scanString rest <;>
        simp [scanString, hexDigits, hdigit, hdigits, hshort, hcode, hread]
    · rename_i hcode
      obtain ⟨hquote, hbackslash, hle⟩ := h.raw c hshort (by simpa using hcode)
      cases hread : scanString rest <;>
        simp [scanString, hbackslash, Nat.not_lt.mpr hle, hshort, hcode, hread]

theorem Reversible.joinElements_element (h : e.Reversible) (c : Char) (elements : List Element) :
    joinElements (e.element c :: elements) = (joinElements elements).map (c :: ·) := by
  rw [element]
  split
  · rename_i hcode
    rw [Bool.and_eq_true, Option.isNone_iff_eq_none] at hcode
    exact joinElements_unit (h.byCode c hcode.1 hcode.2) elements
  · rw [joinElements]

theorem Reversible.scanString_quote (h : e.Reversible) (text rest : List Char) :
    scanString (text.flatMap e.escape ++ '"' :: rest) = some (text.map e.element, rest) := by
  induction text with
  | nil => rfl
  | cons c text ih =>
    rw [List.flatMap_cons, List.append_assoc, h.scanString_escape, ih]
    rfl

theorem Reversible.joinElements_map (h : e.Reversible) (text : List Char) :
    joinElements (text.map e.element) = some text := by
  induction text with
  | nil => rfl
  | cons c text ih =>
    rw [List.map_cons, h.joinElements_element, ih]
    rfl

theorem Reversible.nextToken?_quote (h : e.Reversible) (s : String) (rest : List Char) :
    nextToken? (e.quote s ++ rest) = some (.string (some s), rest) := by
  simp [quote, nextToken?, h.scanString_quote, h.joinElements_map, String.ofList_toList]

end Escaping

/-! ## Values -/

/-- Whether a text is read as the value wherever a value is due. -/
def Denotes (text : List Char) (json : Json) : Prop :=
  ∀ stack rest, (Reader.value stack).run (text ++ rest) = (Reader.put json stack).run rest

theorem Denotes.read? {text : List Char} {json : Json} (h : Denotes text json) :
    read? (String.ofList text) = some json := by
  have hrun := h [] []
  rw [List.append_nil] at hrun
  rw [Json.read?, String.toList_ofList, hrun, Reader.put, Reader.run]

namespace Reader

theorem run_of_step {reader next : Reader} {c : Char} {cs rest : List Char} {t : Token}
    (hblank : isBlank c = false) (ht : nextToken? (c :: cs) = some (t, rest))
    (hstep : reader.step t = some next) : reader.run (c :: cs) = next.run rest := by
  rw [run, hblank, if_neg Bool.false_ne_true]
  split
  · rename_i hnone
    rw [ht] at hnone
    cases hnone
  · rename_i hsome
    rw [ht] at hsome
    obtain ⟨rfl, rfl⟩ := Prod.mk.inj (Option.some.inj hsome)
    rw [hstep]

end Reader

theorem Escaping.Reversible.denotes_quote {e : Escaping} (h : e.Reversible) (s : String) :
    Denotes (e.quote s) (.string (some s)) := by
  intro stack rest
  exact Reader.run_of_step rfl (h.nextToken?_quote s rest) rfl

theorem denotes_bool (value : Bool) :
    Denotes (if value then "true" else "false").toList (.bool value) := by
  intro stack rest
  cases value with
  | false => exact Reader.run_of_step rfl rfl rfl
  | true => exact Reader.run_of_step rfl rfl rfl

namespace Reader

variable {e : Escaping} {read : List (Option String × Json)} {stack : List Frame}

theorem run_member (h : e.Reversible) {reader : Reader} {m : String × List Char} {json : Json}
    (hm : Denotes m.2 json) (rest : List Char)
    (hstep : reader.step (.string (some m.1)) = some (.colon read (some m.1) stack)) :
    reader.run (e.member m ++ rest) =
      (afterMember ((some m.1, json) :: read) stack).run rest := by
  calc reader.run (e.member m ++ rest)
      = reader.run (e.quote m.1 ++ (':' :: (m.2 ++ rest))) := by
        rw [Escaping.member, List.append_assoc, List.cons_append]
    _ = (colon read (some m.1) stack).run (':' :: (m.2 ++ rest)) :=
        run_of_step rfl (h.nextToken?_quote m.1 _) hstep
    _ = (value (.object read (some m.1) :: stack)).run (m.2 ++ rest) :=
        run_of_step rfl rfl rfl
    _ = (afterMember ((some m.1, json) :: read) stack).run rest := hm _ rest

theorem run_members (h : e.Reversible) {members : List (String × List Char)}
    {values : List (Option String × Json)}
    (hmembers : List.Forall₂ (fun m v => v.1 = some m.1 ∧ Denotes m.2 v.2) members values)
    (rest : List Char) :
    (afterMember read stack).run (members.flatMap (',' :: e.member ·) ++ '}' :: rest) =
      (put (.object (read.reverse ++ values)) stack).run rest := by
  induction hmembers generalizing read with
  | nil =>
    rw [List.append_nil]
    exact run_of_step rfl rfl rfl
  | @cons m v members values hm _ ih =>
    obtain ⟨name, json⟩ := v
    obtain ⟨rfl, hm⟩ := hm
    calc (afterMember read stack).run ((m :: members).flatMap (',' :: e.member ·) ++ '}' :: rest)
        = (afterMember read stack).run (',' ::
            (e.member m ++ (members.flatMap (',' :: e.member ·) ++ '}' :: rest))) := by
          simp
      _ = (key read stack).run
            (e.member m ++ (members.flatMap (',' :: e.member ·) ++ '}' :: rest)) :=
          run_of_step rfl rfl rfl
      _ = (afterMember ((some m.1, json) :: read) stack).run
            (members.flatMap (',' :: e.member ·) ++ '}' :: rest) := run_member h hm _ rfl
      _ = (put (.object (read.reverse ++ (some m.1, json) :: values)) stack).run rest := by
          rw [ih, List.reverse_cons, List.append_assoc, List.singleton_append]

end Reader

theorem intercalate_cons {α : Type} (separator : α) (first : List α) (others : List (List α)) :
    [separator].intercalate (first :: others) = first ++ others.flatMap (separator :: ·) := by
  induction others generalizing first with
  | nil => simp
  | cons second others ih => simp [List.intercalate_cons_cons, ih]

/-- An object denotes its members, in their order and with repeated names. -/
theorem Escaping.Reversible.denotes_object {e : Escaping} (h : e.Reversible)
    {members : List (String × List Char)} {values : List (Option String × Json)}
    (hmembers : List.Forall₂ (fun m v => v.1 = some m.1 ∧ Denotes m.2 v.2) members values) :
    Denotes (e.object members) (.object values) := by
  intro stack rest
  cases hmembers with
  | nil =>
    calc (Reader.value stack).run (e.object [] ++ rest)
        = (Reader.firstMember stack).run ('}' :: rest) := Reader.run_of_step rfl rfl rfl
      _ = (Reader.put (.object []) stack).run rest := Reader.run_of_step rfl rfl rfl
  | @cons m v members values hm hmembers =>
    obtain ⟨name, json⟩ := v
    obtain ⟨rfl, hm⟩ := hm
    have htext : e.object (m :: members) ++ rest =
        '{' :: (e.member m ++ (members.flatMap (',' :: e.member ·) ++ '}' :: rest)) := by
      rw [Escaping.object, List.map_cons, intercalate_cons]
      simp [List.flatMap_map]
    calc (Reader.value stack).run (e.object (m :: members) ++ rest)
        = (Reader.firstMember stack).run
            (e.member m ++ (members.flatMap (',' :: e.member ·) ++ '}' :: rest)) := by
          rw [htext]
          exact Reader.run_of_step rfl rfl rfl
      _ = (Reader.afterMember [(some m.1, json)] stack).run
            (members.flatMap (',' :: e.member ·) ++ '}' :: rest) := Reader.run_member h hm _ rfl
      _ = (Reader.put (.object ((some m.1, json) :: values)) stack).run rest :=
          Reader.run_members h hmembers rest

end Columnar.Json
