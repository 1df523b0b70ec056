import Columnar.Config.Document
import Columnar.Proofs.Json.Reading

/-! # Configurations read back and installed

The document of a configuration is a JSON object from which all options are read back, whatever text
stands for the severity. Only the name of the severity can make it unacceptable, and every accepted
configuration can be installed.
-/

namespace Columnar

/-- A name stands for the severity whose own name it is up to the case of ASCII letters. -/
def Severity.IsNamed (severity : Severity) (name : String) : Prop :=
  name.toList.map Char.toUpper = severity.name.toList

instance (severity : Severity) (name : String) : Decidable (severity.IsNamed name) :=
  inferInstanceAs (Decidable (_ = _))

theorem Severity.ofName?_eq_some_iff {severity : Severity} {name : String} :
    ofName? name = some severity ↔ severity.IsNamed name := by
  constructor
  · intro h
    unfold ofName? at h
    split at h <;> cases h <;>
    · rename_i hname
      rw [IsNamed, ← String.toList_ofList (l := name.toList.map Char.toUpper), hname]
      rfl
  · intro h
    rw [ofName?, IsNamed] at *
    rw [h, String.ofList_toList]
    cases severity <;> rfl

-- Dotless i is no ASCII letter, although its capital is the letter of the name.
example : Severity.ofName? "ınfo" = none := by decide

namespace Config

theorem reversible_minimal : Json.minimal.Reversible where
  short c letter h := by
    simp only [Json.minimal] at h
    split at h <;> cases h <;> rfl
  byCode c _ h := by
    simp only [Json.minimal, decide_eq_true_eq] at h
    omega
  raw c hshort h := by
    simp only [Json.minimal, decide_eq_false_iff_not, Nat.not_lt] at h
    refine ⟨?_, ?_, h⟩
    · rintro rfl
      cases hshort
    · rintro rfl
      cases hshort

/-- The JSON object with all options. -/
def asJson (c : Config) : Json :=
  .object
    [(some "bound_pruning", .bool c.boundPruning),
     (some "natural_order_sort_elision", .bool c.naturalOrderSortElision),
     (some "log_severity", .string (some c.logSeverity))]

theorem read?_toJson (c : Config) : Json.read? c.toJson = some c.asJson := by
  refine (reversible_minimal.denotes_object ?_).read?
  refine .cons ⟨rfl, Json.denotes_bool _⟩ (.cons ⟨rfl, Json.denotes_bool _⟩ (.cons ⟨rfl, ?_⟩ .nil))
  exact reversible_minimal.denotes_quote c.logSeverity

theorem ofValue?_asJson (c : Config) : ofValue? c.asJson = some c := rfl

theorem ofJson_toJson (c : Config) : ofJson c.toJson = c.severity.map fun _ => c := by
  rw [ofJson, read?_toJson, Option.bind_some, ofValue?_asJson]

theorem severity_eq_ok_iff {c : Config} {severity : Severity} :
    c.severity = .ok severity ↔ severity.IsNamed c.logSeverity := by
  rw [Config.severity, ← Severity.ofName?_eq_some_iff]
  cases Severity.ofName? c.logSeverity <;> simp

theorem severity_eq_error_iff {c : Config} {e : ConfigError} :
    c.severity = .error e ↔ (∀ severity : Severity, ¬ severity.IsNamed c.logSeverity) ∧
      e = .unknownSeverity c.logSeverity := by
  simp only [Config.severity, ← Severity.ofName?_eq_some_iff]
  cases Severity.ofName? c.logSeverity <;> simp [eq_comm]

theorem exists_severity_of_ofJson {text : String} {c : Config} (h : ofJson text = .ok c) :
    ∃ severity, c.severity = .ok severity := by
  unfold ofJson at h
  split at h
  · cases h
  · rename_i config _
    cases hs : config.severity with
    | error e =>
      rw [hs] at h
      cases h
    | ok severity =>
      rw [hs] at h
      cases h
      exact ⟨severity, hs⟩

theorem run_install (c : Config) (l : Logger) : c.install.run l =
    match c.severity with
    | .ok severity => .ok () (l.setThreshold severity)
    | .error e => .error e l := by
  rw [install]
  cases c.severity <;> rfl

/--
What is written for a configuration is the JSON object with its options. It is read back as this
configuration if the text for the severity is the name of one, and otherwise it is rejected for that
name. A configuration that is accepted can be installed, and the logger then has the threshold that
the configuration names. A configuration that names none cannot, and it leaves the logger as it was.
-/
theorem ofJson_toJson_install (c : Config) :
    Json.read? c.toJson = some c.asJson ∧
      (∀ severity : Severity, severity.IsNamed c.logSeverity → ofJson c.toJson = .ok c) ∧
      ((∀ severity : Severity, ¬ severity.IsNamed c.logSeverity) →
        ofJson c.toJson = .error (.unknownSeverity c.logSeverity)) ∧
      (∀ text accepted, ofJson text = .ok accepted → ∀ l : Logger,
        ∃ l', accepted.install.run l = .ok () l' ∧
          ∀ severity : Severity, l'.threshold = severity ↔ severity.IsNamed accepted.logSeverity) ∧
      ∀ (l l' : Logger) (e : ConfigError), c.install.run l = .error e l' ↔
        (∀ severity : Severity, ¬ severity.IsNamed c.logSeverity) ∧
          e = .unknownSeverity c.logSeverity ∧ l' = l := by
  refine ⟨c.read?_toJson, fun severity hnamed => ?_, fun hnone => ?_, fun text accepted h l => ?_,
    fun l l' e => ?_⟩
  · rw [ofJson_toJson, severity_eq_ok_iff.mpr hnamed]
    rfl
  · rw [ofJson_toJson, severity_eq_error_iff.mpr ⟨hnone, rfl⟩]
    rfl
  · obtain ⟨severity, hseverity⟩ := exists_severity_of_ofJson h
    refine ⟨l.setThreshold severity, by rw [run_install, hseverity], fun other => ?_⟩
    rw [Logger.threshold_setThreshold, ← severity_eq_ok_iff, hseverity, Except.ok.injEq]
  · rw [run_install, ← and_assoc, ← severity_eq_error_iff]
    cases c.severity <;> simp [eq_comm]

/-- A configuration whose severity is written in mixed case. -/
def quiet : Config := { boundPruning := false, logSeverity := "eRRor" }

/-- A configuration whose severity needs escapes and is no name of ASCII letters. -/
def dotless : Config := { logSeverity := "\"ınfo\"\n" }

theorem ofJson_toJson_install_examples :
    ofJson quiet.toJson = .ok quiet ∧ quiet.install.run {} = .ok () ⟨.error⟩ ∧
      ofJson dotless.toJson = .error (.unknownSeverity "\"ınfo\"\n") ∧
      dotless.install.run ⟨.info⟩ = .error (.unknownSeverity "\"ınfo\"\n") ⟨.info⟩ := by
  obtain ⟨_, hread, _, haccepted, _⟩ := quiet.ofJson_toJson_install
  obtain ⟨_, _, hrejected, _, hfailed⟩ := dotless.ofJson_toJson_install
  have hnamed : Severity.error.IsNamed quiet.logSeverity := by decide
  have hnone : ∀ severity : Severity, ¬ severity.IsNamed dotless.logSeverity := by
    intro severity
    cases severity <;> decide
  have hok : ofJson quiet.toJson = .ok quiet := hread .error hnamed
  obtain ⟨⟨threshold⟩, hrun, hthreshold⟩ := haccepted _ _ hok {}
  obtain rfl : threshold = .error := (hthreshold .error).mpr hnamed
  exact ⟨hok, hrun, hrejected hnone, (hfailed _ _ _).mpr ⟨hnone, rfl, rfl⟩⟩

end Config

end Columnar
