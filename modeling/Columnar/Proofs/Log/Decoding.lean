import Mathlib.Data.List.Nodup
import Columnar.Proofs.Json.Reading
import Columnar.Proofs.Log.Line
import Columnar.Proofs.Sorting

/-! # Reading log lines back

A log line is one JSON object that is written on a line of its own. Read back, it holds the event,
the severity and the fields of its entry by key, whatever characters they consist of. So no text
that is logged adds a member or a line, hides one or breaks one in two.
-/

namespace Columnar

/-- The control characters of Unicode: those of ASCII, and those from U+0080 to U+009F. -/
def Text.IsControl (c : Char) : Prop := c.toNat < 0x20 ∨ 0x7f ≤ c.toNat ∧ c.toNat ≤ 0x9f

instance (c : Char) : Decidable (Text.IsControl c) := inferInstanceAs (Decidable (_ ∨ _ ∧ _))

/-- Fields in the order of their keys by bytes, those of one key in the order they were given in. -/
structure Fields.SortedByKey (fields sorted : Fields) : Prop where
  perm : sorted.Perm fields
  ascending : sorted.Pairwise fun a b =>
    a.1.toByteArray.data.toList ≤ b.1.toByteArray.data.toList
  stable : ∀ key, sorted.filter (·.1 = key) = fields.filter (·.1 = key)

/-- The JSON object with the fields as its members, in their order. -/
def Fields.asJson (fields : Fields) : Json :=
  .object (fields.map fun f => (some f.1, .string (some f.2)))

theorem Fields.asJson_inj {fields others : Fields} :
    fields.asJson = others.asJson ↔ fields = others := by
  constructor
  · intro h
    refine List.map_injective_iff.mpr ?_ (Json.object.inj h)
    rintro ⟨key, value⟩ ⟨key', value'⟩ h
    simpa using h
  · rintro rfl
    rfl

theorem Severity.name_inj {a b : Severity} : a.name = b.name ↔ a = b := by
  constructor
  · intro h
    cases a <;> cases b <;> simp only [name, String.reduceEq] at h ⊢
  · rintro rfl
    rfl

namespace LogEntry

/-! ## Sorted fields -/

def compareKeys (a b : String × String) : Ordering := Text.compare a.1 b.1

instance : Std.TransCmp compareKeys where
  eq_swap := (inferInstance : Std.TransCmp Text.compare).eq_swap
  isLE_trans := (inferInstance : Std.TransCmp Text.compare).isLE_trans

theorem compareKeys_beq_eq (a : String × String) :
    (compareKeys a · == .eq) = fun f => decide (f.1 = a.1) := by
  funext f
  rw [Bool.eq_iff_iff, beq_iff_eq, compareKeys, Text.compare_eq_eq_iff, decide_eq_true_eq]
  exact eq_comm

theorem sortedByKey_sortedFields (e : LogEntry) : e.fields.SortedByKey e.sortedFields where
  perm := List.mergeSort_perm _ _
  ascending := (pairwise_mergeSort_isLE compareKeys e.fields).imp
    fun h => Text.isLE_compare_iff.mp h
  stable key := by
    have h := filter_mergeSort_isLE compareKeys e.fields (key, "")
    rwa [compareKeys_beq_eq] at h

/-- Being sorted by key determines the order of fields. -/
theorem sortedByKey_iff {e : LogEntry} {sorted : Fields} :
    e.fields.SortedByKey sorted ↔ sorted = e.sortedFields := by
  constructor
  · intro h
    have hsorted := e.sortedByKey_sortedFields
    refine eq_of_filter_eq compareKeys ?_ ?_ fun a => ?_
    · exact h.ascending.imp fun hle => Text.isLE_compare_iff.mpr hle
    · exact hsorted.ascending.imp fun hle => Text.isLE_compare_iff.mpr hle
    · rw [compareKeys_beq_eq]
      exact (h.stable a.1).trans (hsorted.stable a.1).symm
  · rintro rfl
    exact e.sortedByKey_sortedFields

/-! ## Escapes -/

theorem reversible_escaping : escaping.Reversible where
  short c letter h := by
    simp only [escaping] at h
    split at h <;> cases h <;> rfl
  byCode c _ h := by
    simp only [escaping, decide_eq_true_eq] at h
    omega
  raw c hshort h := by
    simp only [escaping, decide_eq_false_iff_not, not_or, Nat.not_lt] at h
    refine ⟨?_, ?_, h.1⟩
    · rintro rfl
      cases hshort
    · rintro rfl
      cases hshort

theorem not_isControl_hexDigits {n : Nat} {c : Char} (h : c ∈ Json.hexDigits n) :
    ¬ Text.IsControl c := by
  obtain ⟨digit, hdigit, rfl⟩ := List.mem_map.mp h
  have hall : ∀ digit < 16, ¬ Text.IsControl (Nat.digitChar digit) := by decide
  refine hall digit ?_
  simp only [List.mem_cons, List.not_mem_nil, or_false] at hdigit
  omega

theorem not_isControl_escape {c d : Char} (h : d ∈ escaping.escape c) : ¬ Text.IsControl d := by
  rw [Json.Escaping.escape] at h
  split at h
  · rename_i letter hshort
    rcases List.mem_cons.mp h with rfl | h
    · decide
    · obtain rfl := List.mem_singleton.mp h
      simp only [escaping] at hshort
      split at hshort <;> cases hshort <;> decide
  · split at h
    · rcases List.mem_cons.mp h with rfl | h
      · decide
      · rcases List.mem_cons.mp h with rfl | h
        · decide
        · exact not_isControl_hexDigits h
    · rename_i hcode
      obtain rfl := List.mem_singleton.mp h
      simpa [escaping, Text.IsControl] using hcode

theorem not_isControl_quote {s : String} {c : Char} (h : c ∈ escaping.quote s) :
    ¬ Text.IsControl c := by
  simp only [Json.Escaping.quote, List.cons_append, List.mem_cons, List.mem_append,
    List.mem_flatMap, List.not_mem_nil, or_false] at h
  rcases h with rfl | ⟨d, _, h⟩ | rfl
  · decide
  · exact not_isControl_escape h
  · decide

theorem not_isControl_object (e : LogEntry) {c : Char} (h : c ∈ e.object) :
    ¬ Text.IsControl c := by
  have hmember {m : String × String} (h : c ∈ memberText m) : ¬ Text.IsControl c := by
    rcases List.mem_append.mp h with h | h
    · exact not_isControl_quote h
    · rcases List.mem_cons.mp h with rfl | h
      · decide
      · exact not_isControl_quote h
  rw [object, Json.Escaping.object, List.map_map, members, List.map_cons,
    Json.intercalate_cons] at h
  simp only [List.cons_append, List.mem_cons, List.mem_append, List.mem_flatMap, List.mem_map,
    List.not_mem_nil, or_false] at h
  rcases h with rfl | (h | ⟨_, ⟨m, _, rfl⟩, rfl | h⟩) | rfl
  · decide
  · exact hmember h
  · decide
  · exact hmember h
  · decide

/-! ## Lines -/

theorem read?_object (e : LogEntry) :
    Json.read? (String.ofList e.object) = some e.members.asJson := by
  refine (reversible_escaping.denotes_object ?_).read?
  rw [List.forall₂_map_left_iff, List.forall₂_map_right_iff, List.forall₂_same]
  intro m _
  exact ⟨rfl, reversible_escaping.denotes_quote m.2⟩

theorem line_eq_append (e : LogEntry) : e.line = String.ofList e.object ++ "\n" := by
  rw [line, String.ofList_append]

theorem line_eq_line_iff {a b : LogEntry} : a.line = b.line ↔ a.members = b.members := by
  constructor
  · intro h
    rw [line_eq_append, line_eq_append, String.append_left_inj] at h
    have hread := a.read?_object
    rw [h, b.read?_object] at hread
    exact (Fields.asJson_inj.mp (Option.some.inj hread)).symm
  · intro h
    rw [line_eq_append, line_eq_append, object, object, h]

theorem sortedFields_of_perm {e : LogEntry} {fields : Fields} (h : fields.Perm e.fields)
    (hkeys : (e.fields.map Prod.fst).Nodup) :
    sortedFields { e with fields } = e.sortedFields := by
  have hsorted := e.sortedByKey_sortedFields
  have hsorted' : fields.SortedByKey _ := sortedByKey_sortedFields { e with fields }
  refine (hsorted'.perm.trans (h.trans hsorted.perm.symm)).eq_of_pairwise ?_ hsorted'.ascending
    hsorted.ascending
  intro a b ha hb hab hba
  have hkey : a.1 = b.1 := by
    refine Text.compare_eq_eq_iff.mp (Std.OrientedCmp.isLE_antisymm ?_ ?_)
    · exact Text.isLE_compare_iff.mpr hab
    · exact Text.isLE_compare_iff.mpr hba
  have ha := h.mem_iff.mp (hsorted'.perm.mem_iff.mp ha)
  have hb := hsorted.perm.mem_iff.mp hb
  exact List.inj_on_of_nodup_map hkeys ha hb hkey

/--
A log line is one JSON object on a line of its own, in which no control character stands raw. What
is read from it is the event, the severity and then the fields by key, and nothing else: entries
are written alike only if they agree in all of these. The order in which fields with different keys
are given does not show.
-/
theorem exists_read?_line (e : LogEntry) :
    ∃ body sorted, e.line = body ++ "\n" ∧ (∀ c ∈ body.toList, ¬ Text.IsControl c) ∧
      e.fields.SortedByKey sorted ∧
      Json.read? body = some (Fields.asJson
        (("event", e.event) :: ("severity", e.severity.name) :: sorted)) ∧
      (∀ other : LogEntry, other.line = e.line ↔
        other.event = e.event ∧ other.severity = e.severity ∧ other.fields.SortedByKey sorted) ∧
      ∀ fields : Fields, fields.Perm e.fields → (e.fields.map Prod.fst).Nodup →
        line { e with fields } = e.line := by
  refine ⟨String.ofList e.object, e.sortedFields, e.line_eq_append, ?_,
    e.sortedByKey_sortedFields, e.read?_object, fun other => ?_, fun fields hperm hkeys => ?_⟩
  · intro c hc
    rw [String.toList_ofList] at hc
    exact e.not_isControl_object hc
  · rw [line_eq_line_iff, sortedByKey_iff, members, members]
    constructor
    · intro h
      injection h with hevent h
      injection h with hseverity hfields
      exact ⟨congrArg Prod.snd hevent, Severity.name_inj.mp (congrArg Prod.snd hseverity),
        hfields.symm⟩
    · rintro ⟨hevent, hseverity, hfields⟩
      rw [hevent, hseverity, hfields]
  · rw [line_eq_line_iff, members, members, sortedFields_of_perm hperm hkeys]

/-- An entry with a line end, a quote and a backslash in its texts. -/
def quoted : LogEntry :=
  .ofSeverity .info "said \"so\"\n" [("text", "a\nb"), ("code", "\\")]

theorem exists_read?_line_quoted :
    (∃ body, quoted.line = body ++ "\n" ∧ Json.read? body = some (Fields.asJson
      [("event", quoted.event), ("severity", "INFO"), ("code", "\\"), ("text", "a\nb")])) ∧
      line { quoted with fields := quoted.fields.reverse } = quoted.line := by
  obtain ⟨body, sorted, hline, _, hsorted, hread, _, hperm⟩ := quoted.exists_read?_line
  have hfields : quoted.sortedFields = [("code", "\\"), ("text", "a\nb")] := by
    refine (mergeSort_isLE_eq_insertionSort compareKeys quoted.fields).trans ?_
    decide
  rw [sortedByKey_iff.mp hsorted, hfields] at hread
  constructor
  · exact ⟨body, hline, hread⟩
  · exact hperm _ (List.reverse_perm _) (by decide)

end LogEntry

end Columnar
