import Mathlib.Data.List.Forall2
import Columnar.Proofs.Candidates
import Columnar.Proofs.Words.Bounds

/-! # Candidates in words

A scan holds its candidates as a range, and once it has filtered them with one flag for each row of
the range. Their rows and their number are words. All of them are, because a flag belongs to a row
of the range.
-/

namespace Columnar

/-- The forms in which a scan holds candidates; it never has them as a list. -/
inductive WordCandidates.Form where
  | all
  | flags (flags : List Bool)

structure WordCandidates where
  start : Word
  stop : Word
  form : WordCandidates.Form

theorem exists_mapM {α β : Type} {R : α → β → Prop} {f : α → Option β} {xs : List α}
    (h : ∀ x ∈ xs, ∃ y, f x = some y ∧ R x y) :
    ∃ ys, xs.mapM f = some ys ∧ List.Forall₂ R xs ys := by
  induction xs with
  | nil => exact ⟨[], rfl, .nil⟩
  | cons x xs ih =>
    obtain ⟨y, hy, hxy⟩ := h x List.mem_cons_self
    obtain ⟨ys, hys, hall⟩ := ih fun x hx => h x (List.mem_cons_of_mem _ hx)
    exact ⟨y :: ys, by rw [List.mapM_cons, hy, hys]; rfl, .cons hxy hall⟩

namespace WordCandidates

/-- All rows from `start` up to `stop`; none if the range is inverted. -/
def ofRange (start stop : Word) : WordCandidates := ⟨start, max stop start, .all⟩

/-- The rows of a range, one after another. -/
def rangeRows? (start stop : Word) : Option (List Word) :=
  (List.range' start.toNat (stop.toNat - start.toNat)).mapM Word.ofNat?

/-- The row at an offset from the start of the range. -/
def rowAt? (start : Word) (offset : Nat) : Option Word := do Word.add? start (← Word.ofNat? offset)

/-- Tests the rows whose flags are set, and keeps the flags of those that pass. -/
def testFlags? (p : Nat → Option Bool) (start : Word) : Nat → List Bool → Option (List Bool)
  | _, [] => some []
  | offset, flag :: flags => do
    let keep ← if flag then do p (← rowAt? start offset).toNat else some false
    return keep :: (← testFlags? p start (offset + 1) flags)

/-- The rows whose flags are set. -/
def flaggedRows? (start : Word) : Nat → List Bool → Option (List Word)
  | _, [] => some []
  | offset, flag :: flags => do
    if flag then return (← rowAt? start offset) :: (← flaggedRows? start (offset + 1) flags)
    else flaggedRows? start (offset + 1) flags

/-- Keeps the candidates that satisfy a predicate, which may be undefined on a row. -/
def filter? (p : Nat → Option Bool) (c : WordCandidates) : Option WordCandidates := do
  let flags ←
    match c.form with
    | .all => do (← rangeRows? c.start c.stop).mapM fun row => p row.toNat
    | .flags flags => testFlags? p c.start 0 flags
  return { c with form := .flags flags }

def count? (c : WordCandidates) : Option Word :=
  match c.form with
  | .all => Word.sub? c.stop c.start
  | .flags flags => Word.ofNat? (flags.count true)

def toList? (c : WordCandidates) : Option (List Word) :=
  match c.form with
  | .all => rangeRows? c.start c.stop
  | .flags flags => flaggedRows? c.start 0 flags

/-- The rows of the candidates as numbers. -/
def rows (c : WordCandidates) : List Nat :=
  match c.form with
  | .all => List.range' c.start.toNat (c.stop.toNat - c.start.toNat)
  | .flags flags =>
    Candidates.flagged (List.range' c.start.toNat (c.stop.toNat - c.start.toNat)) flags

/-- Candidates of a range that is not inverted, with a flag for each row if there are flags. -/
structure Proper (c : WordCandidates) : Prop where
  start_le_stop : c.start ≤ c.stop
  length_flags : ∀ flags, c.form = .flags flags → flags.length = c.stop.toNat - c.start.toNat

variable {c : WordCandidates} {p : Nat → Option Bool} {flags : List Bool}

theorem proper_ofRange (start stop : Word) : (ofRange start stop).Proper where
  start_le_stop := by
    rw [ofRange, UInt32.le_iff_toNat_le, UInt32.toNat_max]
    exact Nat.le_max_right _ _
  length_flags flags hflags := by cases hflags

theorem rows_ofRange (start stop : Word) :
    (ofRange start stop).rows = (Candidates.ofRange start.toNat stop.toNat).toList := by
  simp only [rows, ofRange, UInt32.toNat_max, Candidates.toList_ofRange]
  congr 1
  omega

/-! ## Rows -/

theorem exists_rangeRows? (start stop : Word) : ∃ words, rangeRows? start stop = some words ∧
    words.map UInt32.toNat = List.range' start.toNat (stop.toNat - start.toNat) := by
  have hword : ∀ row ∈ List.range' start.toNat (stop.toNat - start.toNat),
      ∃ word, Word.ofNat? row = some word ∧ row = word.toNat := by
    intro row hrow
    have hrow := List.mem_range'_1.mp hrow
    have hstop := stop.toNat_lt_size
    obtain ⟨word, hword, heq⟩ := Word.exists_ofNat? (n := row) (by omega)
    exact ⟨word, hword, heq.symm⟩
  obtain ⟨words, hwords, hall⟩ := exists_mapM hword
  refine ⟨words, hwords, ?_⟩
  rw [← List.forall₂_map_right_iff, List.forall₂_eq_eq_eq] at hall
  exact hall.symm

theorem exists_rowAt? (start : Word) (offset : Nat) (h : start.toNat + offset < UInt32.size) :
    ∃ word, rowAt? start offset = some word ∧ word.toNat = start.toNat + offset := by
  obtain ⟨word, hword, heq⟩ := Word.exists_ofNat? (n := offset) (by omega)
  obtain ⟨sum, hsum, htotal⟩ := Word.exists_add? (a := start) (b := word) (by omega)
  exact ⟨sum, by rw [rowAt?, hword]; exact hsum, htotal.trans (by rw [heq])⟩

theorem exists_flaggedRows? (start : Word) (offset : Nat)
    (h : start.toNat + offset + flags.length ≤ UInt32.size) :
    ∃ words, flaggedRows? start offset flags = some words ∧ words.map UInt32.toNat =
      Candidates.flagged (List.range' (start.toNat + offset) flags.length) flags := by
  induction flags generalizing offset with
  | nil => exact ⟨[], rfl, rfl⟩
  | cons flag flags ih =>
    rw [List.length_cons] at h ⊢
    obtain ⟨words, hwords, heq⟩ := ih (offset + 1) (by omega)
    rw [List.range'_succ, Candidates.flagged, Nat.add_assoc, ← heq, flaggedRows?, hwords]
    cases flag with
    | false => exact ⟨words, rfl, rfl⟩
    | true =>
      obtain ⟨word, hword, hrow⟩ := exists_rowAt? start offset (by omega)
      exact ⟨word :: words, by rw [hword]; rfl, by rw [List.map_cons, hrow]; rfl⟩

theorem flagged_of_forall₂ {rows : List Nat}
    (h : List.Forall₂ (fun row flag => p row = some flag) rows flags) :
    Candidates.flagged rows flags = rows.filter (p · == some true) := by
  induction h with
  | nil => rfl
  | @cons row flag rows flags hflag _ ih =>
    rw [Candidates.flagged, ih, List.filter_cons, hflag]
    cases flag <;> rfl

theorem exists_testFlags? (start : Word) (offset : Nat)
    (h : start.toNat + offset + flags.length ≤ UInt32.size)
    (hp : ∀ row ∈ Candidates.flagged (List.range' (start.toNat + offset) flags.length) flags,
      (p row).isSome = true) :
    ∃ kept, testFlags? p start offset flags = some kept ∧ kept.length = flags.length ∧
      Candidates.flagged (List.range' (start.toNat + offset) flags.length) kept =
        (Candidates.flagged (List.range' (start.toNat + offset) flags.length) flags).filter
          (p · == some true) := by
  -- The induction is on the flags ahead, whose first row is as far from the start as the offset.
  induction flags generalizing offset with
  | nil => exact ⟨[], rfl, rfl, rfl⟩
  | cons flag flags ih =>
    rw [List.length_cons] at h
    rw [List.length_cons, List.range'_succ, Candidates.flagged, Nat.add_assoc] at hp ⊢
    rw [testFlags?]
    cases flag with
    | false =>
      obtain ⟨kept, hkept, hlength, heq⟩ := ih (offset + 1) (by omega) hp
      exact ⟨false :: kept, by rw [hkept]; rfl, congrArg (· + 1) hlength, heq⟩
    | true =>
      obtain ⟨hrow, hrest⟩ := List.forall_mem_cons.mp hp
      obtain ⟨keep, hkeep⟩ := Option.isSome_iff_exists.mp hrow
      obtain ⟨word, hword, hat⟩ := exists_rowAt? start offset (by omega)
      obtain ⟨kept, hkept, hlength, heq⟩ := ih (offset + 1) (by omega) hrest
      refine ⟨keep :: kept, ?_, congrArg (· + 1) hlength, ?_⟩
      · simp only [if_true, hword, hkept, Option.bind_eq_bind, Option.bind_some, hat, hkeep]
        rfl
      · rw [Candidates.flagged, heq]
        simp only [if_true, List.filter_cons, hkeep]
        cases keep <;> rfl

/-! ## Operations -/

theorem exists_toList? (h : c.Proper) :
    ∃ words, c.toList? = some words ∧ words.map UInt32.toNat = c.rows := by
  unfold toList? rows
  split
  · exact exists_rangeRows? c.start c.stop
  · rename_i flags hf
    have hstop := c.stop.toNat_lt_size
    have hle := UInt32.le_iff_toNat_le.mp h.start_le_stop
    have hlength := h.length_flags flags hf
    have hrows := exists_flaggedRows? c.start 0 (show _ + flags.length ≤ _ by omega)
    rwa [hlength, Nat.add_zero] at hrows

theorem exists_count? (h : c.Proper) : ∃ n, c.count? = some n ∧ n.toNat = c.rows.length := by
  unfold count? rows
  split
  · rw [List.length_range']
    exact Word.exists_sub? h.start_le_stop
  · rename_i flags hf
    have hstop := c.stop.toNat_lt_size
    have hlength := h.length_flags flags hf
    have hcount : flags.count true ≤ flags.length := List.count_le_length
    rw [Candidates.length_flagged _ _ (hlength.trans List.length_range'.symm)]
    exact Word.exists_ofNat? (by omega)

theorem exists_filter? (h : c.Proper) (hp : ∀ row ∈ c.rows, (p row).isSome = true) :
    ∃ kept, c.filter? p = some kept ∧ kept.Proper ∧
      kept.rows = c.rows.filter (p · == some true) := by
  unfold filter?
  unfold rows at hp
  have hproper (flags : List Bool) (hlength : flags.length = c.stop.toNat - c.start.toNat) :
      ({ c with form := .flags flags } : WordCandidates).Proper :=
    ⟨h.start_le_stop, fun _ hform => by cases hform; exact hlength⟩
  split at hp
  · rename_i hf
    obtain ⟨words, hwords, hrows⟩ := exists_rangeRows? c.start c.stop
    have hkeep : ∀ word ∈ words, ∃ flag, p word.toNat = some flag ∧ p word.toNat = some flag := by
      intro word hword
      obtain ⟨flag, hflag⟩ := Option.isSome_iff_exists.mp
        (hp word.toNat (hrows ▸ List.mem_map_of_mem hword))
      exact ⟨flag, hflag, hflag⟩
    obtain ⟨flags, hflags, hall⟩ := exists_mapM hkeep
    have hall : List.Forall₂ (fun row flag => p row = some flag) (words.map UInt32.toNat) flags :=
      List.forall₂_map_left_iff.mpr hall
    rw [hrows] at hall
    refine ⟨{ c with form := .flags flags }, ?_, hproper flags ?_, ?_⟩
    · simp only [hwords, Option.bind_eq_bind, Option.bind_some, hflags]
      rfl
    · rw [← hall.length_eq, List.length_range']
    · simp only [rows, hf]
      exact flagged_of_forall₂ hall
  · rename_i flags hf
    have hstop := c.stop.toNat_lt_size
    have hle := UInt32.le_iff_toNat_le.mp h.start_le_stop
    have hlength := h.length_flags flags hf
    have htest := exists_testFlags? (p := p) c.start 0 (show _ + flags.length ≤ _ by omega)
    rw [hlength, Nat.add_zero] at htest
    obtain ⟨kept, hkept, hcount, hrows⟩ := htest hp
    refine ⟨{ c with form := .flags kept }, ?_, hproper kept hcount, ?_⟩
    · simp only [hkept]
      rfl
    · simp only [rows, hf]
      exact hrows

end WordCandidates

end Columnar
