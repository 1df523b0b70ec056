import Columnar.Proofs.Scan.Selection
import Columnar.Schema

/-! # Bounds in words

Rows and row counts are words of 32 bits. What is computed here with such words has no value where a
result does not fit into one, or where an element past the end of an array is asked for. Planning
never gets there, and its words are the numbers of the plan.
-/

namespace Columnar

/-! ## Words -/

/-- A row, or a number of rows or of constraints. -/
abbrev Word := UInt32

namespace Word

/-- The word of a number, unless the number is too large for one. -/
def ofNat? (n : Nat) : Option Word := if n < UInt32.size then some (.ofNat n) else none

def add? (a b : Word) : Option Word := ofNat? (a.toNat + b.toNat)

def sub? (a b : Word) : Option Word := if b ≤ a then some (a - b) else none

/-- The length of a sequence, which saturates. -/
def ofLength (length : Nat) : Word := .ofNat (rowLength length)

variable {a b : Word} {n : Nat}

theorem exists_ofNat? (h : n < UInt32.size) : ∃ w, ofNat? n = some w ∧ w.toNat = n :=
  ⟨.ofNat n, if_pos h, UInt32.toNat_ofNat_of_lt' h⟩

theorem exists_add? (h : a.toNat + b.toNat < UInt32.size) :
    ∃ w, add? a b = some w ∧ w.toNat = a.toNat + b.toNat := exists_ofNat? h

theorem exists_sub? (h : b ≤ a) : ∃ w, sub? a b = some w ∧ w.toNat = a.toNat - b.toNat :=
  ⟨a - b, if_pos h, UInt32.toNat_sub_of_le a b h⟩

theorem toNat_ofLength (length : Nat) : (ofLength length).toNat = rowLength length := by
  refine UInt32.toNat_ofNat_of_lt' (Nat.lt_of_le_of_lt (Nat.min_le_right _ _) ?_)
  decide

end Word

/-! ## Row counts -/

def Column.wordCount? : Column → Option Word
  | numeric _ _ values .. => some (.ofLength values.size)
  | text _ ids .. => some (.ofLength ids.size)
  | endTime _ starts durations => some (.ofLength (min starts.size durations.size))
  | rowId .. => none

theorem Column.map_toNat_wordCount? (c : Column) : c.wordCount?.map UInt32.toNat = c.rowCount? := by
  cases c <;> simp only [wordCount?, rowCount?, Option.map_some, Option.map_none,
    Word.toNat_ofLength]

def Schema.wordCount (s : Schema) : Word :=
  (s.fixedRowCount.toList ++ s.columns.filterMap Column.wordCount?).min?.getD 0

theorem min?_map_toNat (words : List Word) :
    (words.map UInt32.toNat).min? = words.min?.map UInt32.toNat := by
  cases h : words.min? with
  | none =>
    obtain rfl := List.min?_eq_none_iff.mp h
    rfl
  | some least =>
    obtain ⟨hmem, hle⟩ := List.min?_eq_some_iff.mp h
    refine List.min?_eq_some_iff.mpr ⟨List.mem_map_of_mem hmem, fun n hn => ?_⟩
    obtain ⟨word, hword, rfl⟩ := List.mem_map.mp hn
    exact UInt32.le_iff_toNat_le.mp (hle word hword)

theorem Schema.toNat_wordCount (s : Schema) : s.wordCount.toNat = s.rowCount := by
  have hcolumns : s.columns.filterMap Column.rowCount? =
      (s.columns.filterMap Column.wordCount?).map UInt32.toNat := by
    rw [List.map_filterMap]
    simp only [Column.map_toNat_wordCount?]
  have hfixed : (s.fixedRowCount.map UInt32.toNat).toList =
      s.fixedRowCount.toList.map UInt32.toNat := by
    cases s.fixedRowCount <;> rfl
  rw [wordCount, rowCount, hcolumns, hfixed, ← List.map_append, min?_map_toNat]
  cases (s.fixedRowCount.toList ++ s.columns.filterMap Column.wordCount?).min? <;> rfl

/-! ## Bounds -/

/-- Bounds whose ends are words. -/
structure WordBounds where
  lo : Word
  hi : Word
  consumed : Bool

namespace WordBounds

def unlimited : WordBounds := ⟨0, 0xffffffff, false⟩

def full (n : Word) : WordBounds := ⟨0, n, false⟩

/-- The number of rows in the range, by a subtraction that saturates. -/
def length (b : WordBounds) : Word := (Word.sub? b.hi b.lo).getD 0

def intersect (a b : WordBounds) : WordBounds where
  lo := max a.lo b.lo
  hi := max (min a.hi b.hi) (max a.lo b.lo)
  consumed := a.consumed && b.consumed

def toBounds (b : WordBounds) : Bounds := ⟨b.lo.toNat, b.hi.toNat, b.consumed⟩

theorem toBounds_intersect (a b : WordBounds) :
    (a.intersect b).toBounds = a.toBounds.intersect b.toBounds := by
  simp only [toBounds, intersect, Bounds.intersect, UInt32.toNat_max, UInt32.toNat_min]

theorem toNat_length (b : WordBounds) : b.length.toNat = b.toBounds.length := by
  simp only [length, toBounds, Bounds.length]
  by_cases h : b.lo ≤ b.hi
  · obtain ⟨w, hw, hlength⟩ := Word.exists_sub? h
    rw [hw, Option.getD_some, hlength]
  · rw [Word.sub?, if_neg h]
    have hlt : ¬ b.lo.toNat ≤ b.hi.toNat := fun hle => h (UInt32.le_iff_toNat_le.mpr hle)
    simp only [Option.getD_none, UInt32.toNat_zero]
    omega

end WordBounds

/-- The elements from a position on, unless the position lies past the end. -/
def suffix? {α : Type} (xs : Array α) (n : Nat) : Option (Array α) :=
  if n ≤ xs.size then some (xs.extract n) else none

/-- The number of leading elements that satisfy `p`, which come first. -/
def leading {α : Type} (xs : Array α) (p : α → Bool) : Nat :=
  partitionPoint xs p 0 xs.size (Nat.le_refl _)

/-- The bounds of a constraint on ascending values; the last row is searched for after the first. -/
def ElementType.wordBounds? (type : ElementType) (values : Array type.Elem) (op : Operator)
    (literal : Value) : Option WordBounds :=
  let lower := type.lowerPart? op literal
  let upper := type.upperPart? op literal
  if !literal.isNumeric || (lower.isNone && upper.isNone) then
    some (.full (.ofLength values.size))
  else do
    let first := leading values fun v => !(type.cell v).meets lower literal
    let rest ← suffix? values first
    let count := leading rest fun v => (type.cell v).meets upper literal
    return ⟨.ofLength first, .ofLength (first + count), true⟩

def Column.wordBounds? (c : Column) (op : Operator) (literal : Value) : Option WordBounds :=
  match c with
  | .numeric _ type values _ true => type.wordBounds? values op literal
  | c => some ((c.wordCount?.map WordBounds.full).getD .unlimited)

theorem partitionPoint_extract {α : Type} {xs : Array α} {p : α → Bool} {k lo hi : Nat}
    (h : hi ≤ (xs.extract k).size) (h' : k + hi ≤ xs.size) :
    k + partitionPoint (xs.extract k) p lo hi h = partitionPoint xs p (k + lo) (k + hi) h' := by
  -- Each search looks at the element that the other one looks at.
  have hmiddle (lo hi : Nat) : k + lo + (k + hi - (k + lo)) / 2 = k + (lo + (hi - lo) / 2) := by
    omega
  fun_induction partitionPoint (xs.extract k) p lo hi h with
  | case1 lo hi h hlt hp ih =>
    rw [Array.getElem_extract] at hp
    rw [partitionPoint.eq_def xs p (k + lo) (k + hi), dif_pos (by omega), ih h']
    simp only [hmiddle, hp, if_true, Nat.add_assoc]
  | case2 lo hi h hlt hp ih =>
    rw [Array.getElem_extract] at hp
    rw [partitionPoint.eq_def xs p (k + lo) (k + hi), dif_pos (by omega), ih (by omega)]
    simp only [hmiddle, hp, if_false, Bool.false_eq_true]
  | case3 lo hi h hlt =>
    rw [partitionPoint, dif_neg (by omega)]

theorem ElementType.exists_wordBounds? (type : ElementType) (values : Array type.Elem)
    (op : Operator) (literal : Value) :
    ∃ b, type.wordBounds? values op literal = some b ∧
      b.toBounds = type.sortedBounds values op literal := by
  simp only [wordBounds?, sortedBounds, leading]
  split
  · refine ⟨_, rfl, ?_⟩
    simp only [WordBounds.toBounds, WordBounds.full, Bounds.full, Word.toNat_ofLength,
      UInt32.toNat_zero]
  · generalize hfirst : partitionPoint values
      (fun v => !(type.cell v).meets (type.lowerPart? op literal) literal) 0 values.size
      (Nat.le_refl _) = first
    have hle : first ≤ values.size := by
      rw [← hfirst]
      exact (partitionPoint_mem _ (Nat.zero_le _)).2
    have hsize : first + (values.extract first).size = values.size := by
      rw [Array.size_extract]
      omega
    refine ⟨_, by simp only [suffix?, if_pos hle]; rfl, ?_⟩
    simp only [WordBounds.toBounds, Word.toNat_ofLength]
    rw [partitionPoint_extract _ (Nat.le_of_eq hsize)]
    simp only [hsize, Nat.add_zero]

theorem Column.exists_wordBounds? (c : Column) (op : Operator) (literal : Value) :
    ∃ b, c.wordBounds? op literal = some b ∧ b.toBounds = c.bounds op literal := by
  have hfull (c : Column) : ((c.wordCount?.map WordBounds.full).getD .unlimited).toBounds =
      (c.rowCount?.map Bounds.full).getD .unlimited := by
    rw [← c.map_toNat_wordCount?]
    cases c.wordCount? <;> rfl
  cases c with
  | numeric name type values hidden ordered =>
    cases ordered with
    | false => exact ⟨_, rfl, hfull _⟩
    | true => exact type.exists_wordBounds? values op literal
  | text => exact ⟨_, rfl, hfull _⟩
  | endTime => exact ⟨_, rfl, hfull _⟩
  | rowId => exact ⟨_, rfl, hfull _⟩

/-! ## Plans -/

/-- A plan whose numbers are words. -/
structure WordPlan where
  range : WordBounds
  consumed : Word
  residual : List Condition

/-- The plan with one more constraint. -/
def Plan.add (config : Config) (p : Plan) (c : Condition) : Plan :=
  if config.boundPruning then
    if c.bounds.consumed then
      { p with range := p.range.intersect c.bounds, consumed := p.consumed + 1 }
    else { p with range := p.range.intersect c.bounds, residual := p.residual ++ [c] }
  else { p with residual := p.residual ++ [c] }

theorem Plan.consumed_add_le (config : Config) (p : Plan) (c : Condition) :
    (p.add config c).consumed ≤ p.consumed + 1 := by
  unfold add
  split
  · split
    · exact Nat.le_refl _
    · exact Nat.le_succ _
  · exact Nat.le_succ _

theorem Plan.foldl_add (config : Config) (p : Plan) (conditions : List Condition) :
    conditions.foldl (add config) p =
      if config.boundPruning then
        { range := conditions.foldl (fun range c => range.intersect c.bounds) p.range
          consumed := p.consumed + conditions.countP (·.bounds.consumed)
          residual := p.residual ++ conditions.filter (!·.bounds.consumed) }
      else { p with residual := p.residual ++ conditions } := by
  induction conditions generalizing p with
  | nil => simp
  | cons c conditions ih =>
    rw [List.foldl_cons, ih, add]
    cases hp : config.boundPruning with
    | false => simp
    | true =>
      cases hc : c.bounds.consumed with
      | false => simp [hc]
      | true =>
        simp [hc]
        omega

theorem Plan.ofConditions_eq_foldl (config : Config) (n : Nat) (conditions : List Condition) :
    ofConditions config n conditions = conditions.foldl (add config) ⟨.full n, 0, []⟩ := by
  rw [foldl_add, ofConditions]
  simp only [Nat.zero_add, List.nil_append]

namespace WordPlan

def toPlan (p : WordPlan) : Plan := ⟨p.range.toBounds, p.consumed.toNat, p.residual⟩

/-- The plan with one more constraint. -/
def add? (config : Config) (p : WordPlan) (c : Condition) : Option WordPlan :=
  if config.boundPruning then do
    let bounds ← c.column.wordBounds? c.op c.value
    let range := p.range.intersect bounds
    if bounds.consumed then return { p with range, consumed := ← Word.add? p.consumed 1 }
    else return { p with range, residual := p.residual ++ [c] }
  else some { p with residual := p.residual ++ [c] }

def ofConditions? (config : Config) (rows : Word) (conditions : List Condition) :
    Option WordPlan :=
  conditions.foldlM (add? config) ⟨.full rows, 0, []⟩

variable (config : Config) {p : WordPlan} {conditions : List Condition}

theorem exists_add? (c : Condition) (h : p.consumed.toNat + 1 < UInt32.size) :
    ∃ p', p.add? config c = some p' ∧ p'.toPlan = p.toPlan.add config c := by
  obtain ⟨b, hb, hbounds⟩ := c.column.exists_wordBounds? c.op c.value
  change b.toBounds = c.bounds at hbounds
  have hconsumed : b.consumed = c.bounds.consumed := congrArg Bounds.consumed hbounds
  have hrange := WordBounds.toBounds_intersect p.range b
  rw [hbounds] at hrange
  unfold add? Plan.add
  cases config.boundPruning with
  | false => exact ⟨_, rfl, rfl⟩
  | true =>
    simp only [if_true, hb, hconsumed, Option.bind_eq_bind, Option.bind_some]
    cases c.bounds.consumed with
    | false => exact ⟨_, rfl, by rw [toPlan, hrange]; rfl⟩
    | true =>
      obtain ⟨consumed, hadd, hsum⟩ := Word.exists_add? (a := p.consumed) (b := 1) h
      refine ⟨_, by rw [hadd]; rfl, ?_⟩
      simp only [toPlan, hrange, hsum]
      rfl

theorem exists_foldlM_add? (h : p.consumed.toNat + conditions.length < UInt32.size) :
    ∃ p', conditions.foldlM (add? config) p = some p' ∧
      p'.toPlan = conditions.foldl (Plan.add config) p.toPlan := by
  induction conditions generalizing p with
  | nil => exact ⟨p, rfl, rfl⟩
  | cons c conditions ih =>
    rw [List.length_cons] at h
    obtain ⟨next, hnext, hplan⟩ := exists_add? config c (show p.consumed.toNat + 1 < _ by omega)
    have hle : next.consumed.toNat ≤ p.consumed.toNat + 1 := by
      have hle := Plan.consumed_add_le config p.toPlan c
      rwa [← hplan] at hle
    obtain ⟨p', hp', hplan'⟩ := ih (p := next) (by omega)
    refine ⟨p', ?_, ?_⟩
    · rw [List.foldlM_cons, hnext]
      exact hp'
    · rw [List.foldl_cons, ← hplan]
      exact hplan'

theorem exists_ofConditions? (rows : Word) (h : conditions.length < UInt32.size) :
    ∃ p, ofConditions? config rows conditions = some p ∧
      p.toPlan = Plan.ofConditions config rows.toNat conditions := by
  have hlength : (0 : Word).toNat + conditions.length < UInt32.size := by simpa using h
  obtain ⟨p, hp, hplan⟩ := exists_foldlM_add? config (p := ⟨.full rows, 0, []⟩) hlength
  exact ⟨p, hp, hplan.trans (Plan.ofConditions_eq_foldl config rows.toNat conditions).symm⟩

end WordPlan

end Columnar
