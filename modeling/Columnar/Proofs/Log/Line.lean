import Columnar.Log.Entry

/-! # The text of log lines

Where a field stands in its line is decided by the keys of the entry alone. Entries that differ in
the value of one field are therefore written as the same text around what is written for that field.
-/

namespace Columnar

theorem exists_intercalate {α : Type} (separator : List α) (before after : List (List α)) :
    ∃ left right, ∀ text,
      separator.intercalate (before ++ text :: after) = left ++ text ++ right := by
  induction before with
  | nil =>
    cases after with
    | nil =>
      refine ⟨[], [], fun text => ?_⟩
      rw [List.nil_append, List.intercalate_singleton, List.nil_append, List.append_nil]
    | cons next after =>
      refine ⟨[], separator ++ separator.intercalate (next :: after), fun text => ?_⟩
      rw [List.nil_append, List.intercalate_cons_cons, List.nil_append, List.append_assoc]
  | cons first before ih =>
    obtain ⟨left, right, h⟩ := ih
    refine ⟨first ++ separator ++ left, right, fun text => ?_⟩
    have hne : before ++ text :: after ≠ [] := by simp
    rw [List.cons_append, List.intercalate_cons_of_ne_nil hne, h]
    simp only [List.append_assoc]

namespace LogEntry

/-- What is written for one field. -/
def memberText (m : String × String) : List Char := escaping.member (m.1, escaping.quote m.2)

theorem line_eq (e : LogEntry) : e.line =
    String.ofList ('{' :: [','].intercalate (e.members.map memberText) ++ ['}', '\n']) := by
  rw [line, object, Json.Escaping.object, List.map_map, List.append_assoc]
  rfl

/-- Whether two lines are the same text, except for the value of one field that both have. -/
def SameTextBut (key : String) (a b : LogEntry) : Prop :=
  a.line = b.line ∨ ∃ left right u v,
    a.line = String.ofList (left ++ memberText (key, u) ++ right) ∧
      b.line = String.ofList (left ++ memberText (key, v) ++ right)

/-! ## Fields with a hole -/

/-- A field whose value may be missing, filled by the given one. -/
def fill (value : String) (f : String × Option String) : String × String := (f.1, f.2.getD value)

theorem map_fill_of_isSome {fields : List (String × Option String)}
    (h : ∀ f ∈ fields, f.2.isSome = true) (u v : String) :
    fields.map (fill u) = fields.map (fill v) := by
  refine List.map_congr_left fun f hf => ?_
  obtain ⟨value, hvalue⟩ := Option.isSome_iff_exists.mp (h f hf)
  rw [fill, fill, hvalue]
  rfl

/-- Fields and a last one without value. -/
def withHole (fields : Fields) (key : String) : List (String × Option String) :=
  fields.map (fun (k, value) => (k, some value)) ++ [(key, none)]

theorem map_fill_withHole (fields : Fields) (key value : String) :
    (withHole fields key).map (fill value) = fields ++ [(key, value)] := by
  rw [withHole, List.map_append, List.map_map]
  exact congrArg (· ++ [(key, value)]) (List.map_id fields)

theorem countP_withHole (fields : Fields) (key : String) :
    (withHole fields key).countP (·.2.isNone) = 1 := by
  rw [withHole, List.countP_append, List.countP_map, List.countP_eq_zero.mpr]
  · rfl
  · exact fun _ _ => Bool.false_ne_true

/-- The place of the last field among the sorted ones does not depend on its value. -/
theorem exists_sortedFields (e : LogEntry) (key : String) :
    ∃ before after, ∀ value, sortedFields { e with fields := e.fields ++ [(key, value)] } =
      before ++ (key, value) :: after := by
  let sorted := (withHole e.fields key).mergeSort fun a b => (Text.compare a.1 b.1).isLE
  have hperm : sorted.Perm (withHole e.fields key) := List.mergeSort_perm _ _
  have hmem : (key, none) ∈ sorted :=
    hperm.mem_iff.mpr (List.mem_append_right _ (List.mem_singleton.mpr rfl))
  obtain ⟨before, after, hsplit⟩ := List.append_of_mem hmem
  -- The sorted fields have one hole, so there is none before or after it.
  have hholes : (before ++ (key, none) :: after).countP (·.2.isNone) = 1 := by
    rw [← hsplit, hperm.countP_eq, countP_withHole]
  rw [List.countP_append, List.countP_cons_of_pos rfl] at hholes
  have hfull (fields : List (String × Option String)) (hnone : fields.countP (·.2.isNone) = 0) :
      ∀ f ∈ fields, f.2.isSome = true := fun f hf =>
    by simpa [Option.isSome_iff_ne_none] using List.countP_eq_zero.mp hnone f hf
  refine ⟨before.map (fill ""), after.map (fill ""), fun value => ?_⟩
  rw [map_fill_of_isSome (hfull before (by omega)) "" value,
    map_fill_of_isSome (hfull after (by omega)) "" value]
  have hfilled : sorted.map (fill value) =
      sortedFields { e with fields := e.fields ++ [(key, value)] } := by
    rw [sortedFields, ← map_fill_withHole]
    exact List.map_mergeSort fun _ _ _ _ => rfl
  rw [← hfilled, hsplit, List.map_append, List.map_cons]
  rfl

theorem sameTextBut_concat (e : LogEntry) (key u v : String) :
    SameTextBut key { e with fields := e.fields ++ [(key, u)] }
      { e with fields := e.fields ++ [(key, v)] } := by
  obtain ⟨before, after, hfields⟩ := exists_sortedFields e key
  obtain ⟨left, right, hjoin⟩ := exists_intercalate [',']
    ((("event", e.event) :: ("severity", e.severity.name) :: before).map memberText)
    (after.map memberText)
  have hline (value : String) : line { e with fields := e.fields ++ [(key, value)] } =
      String.ofList ('{' :: left ++ memberText (key, value) ++ (right ++ ['}', '\n'])) := by
    have hmembers : (members { e with fields := e.fields ++ [(key, value)] }).map memberText =
        (("event", e.event) :: ("severity", e.severity.name) :: before).map memberText ++
          memberText (key, value) :: after.map memberText := by
      simp [members, hfields]
    rw [line_eq, hmembers, hjoin]
    simp
  exact .inr ⟨_, _, u, v, hline u, hline v⟩

end LogEntry

end Columnar
