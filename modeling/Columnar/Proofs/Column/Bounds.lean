import Columnar.Proofs.Meaning

/-! # Bounds of sorted columns

Along ascending numbers, what holds of a cell above a literal holds of all later cells. So the
binary searches find exactly the rows that meet the parts of a comparison. Parts dropped at the
extremes of a type lose nothing but infinities.
-/

namespace Columnar

/-! ## Ascending numbers -/

/-- The order of two numbers of one kind, none of which is NaN. -/
def Cell.AtMost : Cell → Cell → Prop
  | .integer a, .integer b => a ≤ b
  | .float x, .float y => x.isNaN = false ∧ y.isNaN = false ∧ x.key ≤ y.key
  | _, _ => False

theorem Operator.Relates.of_lower {op : Operator} (hop : op.isLowerBound = true) {a b l : Int}
    (h : a ≤ b) (ha : op.Relates a l) : op.Relates b l := by
  cases op <;> simp only [isLowerBound, Bool.false_eq_true] at hop <;>
    simp only [Relates] at ha ⊢ <;> omega

theorem Operator.Relates.of_upper {op : Operator} (hop : op.isUpperBound = true) {a b l : Int}
    (h : a ≤ b) (hb : op.Relates b l) : op.Relates a l := by
  cases op <;> simp only [isUpperBound, Bool.false_eq_true] at hop <;>
    simp only [Relates] at hb ⊢ <;> omega

theorem Operator.relatesDoubles_iff {op : Operator} {x y : Binary64} (hx : x.isNaN = false)
    (hy : y.isNaN = false) : op.RelatesDoubles x y ↔ op.Relates x.key y.key := by
  rw [RelatesDoubles, if_neg (by simp only [hx, hy, Bool.false_eq_true, or_self, not_false_iff])]

theorem Operator.not_relatesDoubles {op : Operator} (hop : op.isNarrowing = true) {x y : Binary64}
    (hy : y.isNaN = true) : ¬ op.RelatesDoubles x y := by
  rw [RelatesDoubles, if_pos (.inr hy)]
  rintro (rfl | rfl) <;> cases hop

/--
Two families of tests are those of two integers in order against a third one, or no comparison
accepts anything.
-/
def Operator.Graded (p q : Operator → Prop) : Prop :=
  (∃ a b l : Int, a ≤ b ∧ ∀ op : Operator, (p op ↔ op.Relates a l) ∧ (q op ↔ op.Relates b l)) ∨
    ∀ op : Operator, op.isNarrowing = true → ¬ p op ∧ ¬ q op

theorem Operator.Graded.of_lower {p q : Operator → Prop} (h : Graded p q) {op : Operator}
    (hop : op.isLowerBound = true) (hp : p op) : q op := by
  rcases h with ⟨a, b, l, hab, hk⟩ | hn
  · exact (hk op).2.mpr (((hk op).1.mp hp).of_lower hop hab)
  · exact absurd hp (hn op (by simp only [isNarrowing, hop, Bool.or_true, Bool.true_or])).1

theorem Operator.Graded.of_upper {p q : Operator → Prop} (h : Graded p q) {op : Operator}
    (hop : op.isUpperBound = true) (hq : q op) : p op := by
  rcases h with ⟨a, b, l, hab, hk⟩ | hn
  · exact (hk op).1.mpr (((hk op).2.mp hq).of_upper hop hab)
  · exact absurd hq (hn op (by simp only [isNarrowing, hop, Bool.or_true])).2

theorem Operator.graded_relatesDoubles {x y l : Binary64} (hx : x.isNaN = false)
    (hy : y.isNaN = false) (h : x.key ≤ y.key) :
    Graded (·.RelatesDoubles x l) (·.RelatesDoubles y l) := by
  cases hl : l.isNaN with
  | false =>
    exact .inl ⟨_, _, _, h, fun op => ⟨relatesDoubles_iff hx hl, relatesDoubles_iff hy hl⟩⟩
  | true =>
    exact .inr fun op hop => ⟨not_relatesDoubles hop hl, not_relatesDoubles hop hl⟩

theorem Cell.AtMost.graded {x y : Cell} (h : x.AtMost y) (literal : Value) :
    Operator.Graded (·.Accepts x literal) (·.Accepts y literal) := by
  have none (op : Operator) (hop : op.isNarrowing = true) : ¬ op = .isNotNull := by
    rintro rfl
    cases hop
  cases x <;> cases y <;> simp only [AtMost] at h
  case integer.integer =>
    cases literal with
    | integer => exact .inl ⟨_, _, _, h, fun op => ⟨Iff.rfl, Iff.rfl⟩⟩
    | float =>
      exact Operator.graded_relatesDoubles (Binary64.isNaN_ofInt _) (Binary64.isNaN_ofInt _)
        (Binary64.key_ofInt_mono h)
    | text => exact .inr fun op hop => ⟨none op hop, none op hop⟩
    | null => exact .inr fun op hop => ⟨none op hop, none op hop⟩
  case float.float =>
    obtain ⟨hx, hy, hk⟩ := h
    cases literal with
    | integer => exact Operator.graded_relatesDoubles hx hy hk
    | float => exact Operator.graded_relatesDoubles hx hy hk
    | text => exact .inr fun op hop => ⟨none op hop, none op hop⟩
    | null => exact .inr fun op hop => ⟨none op hop, none op hop⟩

theorem Cell.AtMost.isSome_left {x y : Cell} (h : x.AtMost y) : x.asFloat?.isSome = true := by
  cases x <;> cases y <;> first | rfl | exact h.elim

theorem Cell.AtMost.isSome_right {x y : Cell} (h : x.AtMost y) : y.asFloat?.isSome = true := by
  cases x <;> cases y <;> first | rfl | exact h.elim

theorem Operator.isLowerBound_of_lowerPart? {op part : Operator} (h : op.lowerPart? = some part) :
    part.isLowerBound = true := by
  cases op <;> simp only [lowerPart?, Option.some.injEq, reduceCtorEq] at h <;> subst h <;> rfl

theorem Operator.isUpperBound_of_upperPart? {op part : Operator} (h : op.upperPart? = some part) :
    part.isUpperBound = true := by
  cases op <;> simp only [upperPart?, Option.some.injEq, reduceCtorEq] at h <;> subst h <;> rfl

/-! ## Parts of a comparison -/

namespace ElementType

variable {type : ElementType} {op : Operator} {literal : Value} {x y : Cell}

theorem asFloat?_cell (type : ElementType) (v : type.Elem) :
    (type.cell v).asFloat?.isSome = true := by
  cases type <;> rfl

theorem lowerPart?_eq_some {part : Operator} (h : type.lowerPart? op literal = some part) :
    op.lowerPart? = some part :=
  (Option.filter_eq_some_iff.mp h).1

theorem upperPart?_eq_some {part : Operator} (h : type.upperPart? op literal = some part) :
    op.upperPart? = some part :=
  (Option.filter_eq_some_iff.mp h).1

theorem meets_lowerPart?_mono (hl : literal.isNumeric = true) (h : x.AtMost y)
    (hx : x.meets (type.lowerPart? op literal) literal = true) :
    y.meets (type.lowerPart? op literal) literal = true := by
  cases hp : type.lowerPart? op literal with
  | none => rfl
  | some part =>
    have hop := Operator.isLowerBound_of_lowerPart? (lowerPart?_eq_some hp)
    rw [hp] at hx
    change x.satisfies part literal = true at hx
    change y.satisfies part literal = true
    rw [Cell.satisfies_iff h.isSome_left hl] at hx
    rw [Cell.satisfies_iff h.isSome_right hl]
    exact (h.graded literal).of_lower hop hx

theorem meets_upperPart?_mono (hl : literal.isNumeric = true) (h : x.AtMost y)
    (hy : y.meets (type.upperPart? op literal) literal = true) :
    x.meets (type.upperPart? op literal) literal = true := by
  cases hp : type.upperPart? op literal with
  | none => rfl
  | some part =>
    have hop := Operator.isUpperBound_of_upperPart? (upperPart?_eq_some hp)
    rw [hp] at hy
    change y.satisfies part literal = true at hy
    change x.satisfies part literal = true
    rw [Cell.satisfies_iff h.isSome_right hl] at hy
    rw [Cell.satisfies_iff h.isSome_left hl]
    exact (h.graded literal).of_upper hop hy

/-- A part that is dropped at an extreme is met by that extreme. -/
theorem meets_filter_iff {part? : Option Operator} {inclusive : Operator} {extreme : Cell} :
    x.meets (part?.filter fun part => !(part == inclusive && extreme.satisfies part literal))
        literal = true ↔
      x.meets part? literal = true ∨
        part? = some inclusive ∧ extreme.satisfies inclusive literal = true := by
  cases part? with
  | none => simp only [Option.filter_none, reduceCtorEq, false_and, or_false]
  | some part =>
    cases hd : part == inclusive && extreme.satisfies part literal with
    | true =>
      obtain ⟨rfl, hs⟩ : part = inclusive ∧ extreme.satisfies part literal = true := by
        simpa only [Bool.and_eq_true, beq_iff_eq] using hd
      simp [hs, Cell.meets]
    | false =>
      rw [Option.filter_some_pos (by simp only [hd, Bool.not_false]), or_iff_left]
      rintro ⟨he, hs⟩
      obtain rfl := Option.some.inj he
      simp only [beq_self_eq_true, hs, Bool.and_self, Bool.true_eq_false] at hd

theorem meets_lowerPart?_of_least (hl : literal.isNumeric = true)
    (hx : (type.cell type.least).AtMost x) :
    x.meets (type.lowerPart? op literal) literal = true ↔ x.meets op.lowerPart? literal = true := by
  rw [lowerPart?, meets_filter_iff, or_iff_left_iff_imp]
  rintro ⟨hp, hs⟩
  rw [Cell.satisfies_iff hx.isSome_left hl] at hs
  rw [hp]
  exact (Cell.satisfies_iff hx.isSome_right hl).mpr ((hx.graded literal).of_lower rfl hs)

theorem meets_upperPart?_of_greatest (hl : literal.isNumeric = true)
    (hx : x.AtMost (type.cell type.greatest)) :
    x.meets (type.upperPart? op literal) literal = true ↔ x.meets op.upperPart? literal = true := by
  rw [upperPart?, meets_filter_iff, or_iff_left_iff_imp]
  rintro ⟨hp, hs⟩
  rw [Cell.satisfies_iff hx.isSome_right hl] at hs
  rw [hp]
  exact (Cell.satisfies_iff hx.isSome_left hl).mpr ((hx.graded literal).of_upper rfl hs)

theorem meets_iff {part? : Option Operator} :
    x.meets part? literal = true ↔ ∀ part ∈ part?, part.holds (x.standing literal) = true := by
  simp only [Cell.meets, Option.all_eq_true, Cell.satisfies, Option.mem_def]

theorem meets_parts_iff_satisfies (hop : op.isNarrowing = true) :
    x.meets op.lowerPart? literal = true ∧ x.meets op.upperPart? literal = true ↔
      x.satisfies op literal = true := by
  rw [meets_iff, meets_iff]
  exact (Operator.holds_iff_parts hop _).symm

theorem isNarrowing_of_isSome (h : (type.lowerPart? op literal).isSome = true ∨
    (type.upperPart? op literal).isSome = true) : op.isNarrowing = true := by
  rw [Operator.isNarrowing_iff]
  rcases h with h | h
  · obtain ⟨part, hp⟩ := Option.isSome_iff_exists.mp h
    exact .inl (by rw [lowerPart?_eq_some hp]; rfl)
  · obtain ⟨part, hp⟩ := Option.isSome_iff_exists.mp h
    exact .inr (by rw [upperPart?_eq_some hp]; rfl)

theorem atMost_of_isFinite {v : type.Elem} (hv : (type.cell v).isFinite = true) :
    (type.cell type.least).AtMost (type.cell v) ∧
      (type.cell v).AtMost (type.cell type.greatest) := by
  cases type with
  | integer t => exact v.property
  | double =>
    obtain ⟨hn, hi⟩ : v.isNaN = false ∧ v.isInfinite = false := by
      simpa only [cell, Cell.isFinite, Bool.and_eq_true, Bool.not_eq_true'] using hv
    constructor
    · refine ⟨Binary64.isNaN_least, hn, Int.not_lt.mp fun h => ?_⟩
      exact Bool.false_ne_true (hi.symm.trans ((Binary64.key_lt_key_least_iff hn).mp h).1)
    · refine ⟨hn, Binary64.isNaN_greatest, Int.not_lt.mp fun h => ?_⟩
      exact Bool.false_ne_true (hi.symm.trans ((Binary64.key_greatest_lt_key_iff hn).mp h).1)

theorem meets_parts_iff_of_isFinite {v : type.Elem} (hop : op.isNarrowing = true)
    (hl : literal.isNumeric = true) (hv : (type.cell v).isFinite = true) :
    (type.cell v).meets (type.lowerPart? op literal) literal = true ∧
        (type.cell v).meets (type.upperPart? op literal) literal = true ↔
      (type.cell v).satisfies op literal = true := by
  obtain ⟨hleast, hgreatest⟩ := atMost_of_isFinite hv
  rw [meets_lowerPart?_of_least hl hleast, meets_upperPart?_of_greatest hl hgreatest]
  exact meets_parts_iff_satisfies hop

theorem meets_parts_of_ne_eq (hop : op ≠ .eq) (h : (type.lowerPart? op literal).isSome = true ∨
    (type.upperPart? op literal).isSome = true) :
    x.meets (type.lowerPart? op literal) literal = true ∧
      x.meets (type.upperPart? op literal) literal = true ↔ x.satisfies op literal = true := by
  rw [← meets_parts_iff_satisfies (isNarrowing_of_isSome h)]
  cases op <;> simp only [lowerPart?, upperPart?, Operator.lowerPart?, Operator.upperPart?,
    Option.filter_none, Option.isSome_none, Bool.false_eq_true, or_false, false_or] at h ⊢
  case eq => exact absurd rfl hop
  all_goals
    obtain ⟨part, hp⟩ := Option.isSome_iff_exists.mp h
    obtain ⟨he, _⟩ := Option.filter_eq_some_iff.mp hp
    rw [hp, he]

end ElementType

/--
Whether bounds take the cell for the literal of an equality. An infinity passes for the finite
double next to it, because the part of the equality that tells them apart is dropped.
-/
def Cell.overreaches (op : Operator) (literal : Value) : Cell → Bool
  | .float x => op == .eq && x.isInfinite &&
      literal.asFloat? == some (if x.isNegative then .least else .greatest)
  | _ => false

section Doubles

variable {op : Operator} {literal : Value} {x l : Binary64}

theorem Cell.satisfies_float_iff (hl : literal.asFloat? = some l) :
    (Cell.float x).satisfies op literal = true ↔ op.RelatesDoubles x l := by
  cases literal <;> cases hl <;> exact Operator.holds_compare?_iff

theorem Cell.overreaches_iff (hx : x.isNaN = false) (hl : literal.asFloat? = some l) :
    (Cell.float x).overreaches .eq literal = true ↔
      x.key < Binary64.least.key ∧ l.key = Binary64.least.key ∨
        Binary64.greatest.key < x.key ∧ l.key = Binary64.greatest.key := by
  have hleast : l = .least ↔ l.key = Binary64.least.key :=
    ⟨congrArg _, fun h => Binary64.eq_of_key_eq h (by rw [h]; decide)⟩
  have hgreatest : l = .greatest ↔ l.key = Binary64.greatest.key :=
    ⟨congrArg _, fun h => Binary64.eq_of_key_eq h (by rw [h]; decide)⟩
  rw [Binary64.key_lt_key_least_iff hx, Binary64.key_greatest_lt_key_iff hx, ← hleast, ← hgreatest,
    overreaches, hl]
  cases x.isNegative <;> simp

/--
An equality on a double column keeps, beside the doubles that are equal, the infinities that are
taken for the literal.
-/
theorem ElementType.meets_parts_eq_iff (hx : x.isNaN = false) (hl : literal.asFloat? = some l) :
    (Cell.float x).meets (ElementType.double.lowerPart? .eq literal) literal = true ∧
        (Cell.float x).meets (ElementType.double.upperPart? .eq literal) literal = true ↔
      (Cell.float x).satisfies .eq literal = true ∨
        (Cell.float x).overreaches .eq literal = true := by
  rw [lowerPart?, upperPart?, meets_filter_iff, meets_filter_iff]
  simp only [Operator.lowerPart?, Operator.upperPart?, Cell.meets, Option.all_some, true_and,
    ElementType.cell, ElementType.least, ElementType.greatest, Cell.satisfies_float_iff hl]
  cases hn : l.isNaN with
  | true =>
    have hne (op : Operator) (hop : op.isNarrowing = true) (y : Binary64) :
        ¬ op.RelatesDoubles y l := Operator.not_relatesDoubles hop hn
    have ho : (Cell.float x).overreaches .eq literal = false := by
      rw [Cell.overreaches, hl]
      cases x.isNegative <;> simp <;> rintro - rfl <;> cases hn
    simp only [hne .ge rfl, hne .le rfl, hne .eq rfl, ho, or_self, and_self, Bool.false_eq_true]
  | false =>
    rw [Cell.overreaches_iff hx hl, Operator.relatesDoubles_iff hx hn,
      Operator.relatesDoubles_iff hx hn, Operator.relatesDoubles_iff hx hn,
      Operator.relatesDoubles_iff Binary64.isNaN_least hn,
      Operator.relatesDoubles_iff Binary64.isNaN_greatest hn]
    obtain ⟨_, _⟩ := Binary64.key_bounds hx
    obtain ⟨_, _⟩ := Binary64.key_bounds hn
    have hw : 1 < Binary64.infinityWord := by decide
    simp only [Operator.Relates, Binary64.key_least, Binary64.key_greatest]
    omega

end Doubles

theorem Value.exists_asFloat? {literal : Value} (h : literal.isNumeric = true) :
    ∃ l, literal.asFloat? = some l := by
  cases literal with
  | integer => exact ⟨_, rfl⟩
  | float => exact ⟨_, rfl⟩
  | text => cases h
  | null => cases h

namespace ElementType

variable {type : ElementType} {op : Operator} {literal : Value}

theorem meets_parts_iff (v : type.Elem) (hv : (type.cell v).isNaN = false)
    (hl : literal.isNumeric = true) (h : (type.lowerPart? op literal).isSome = true ∨
      (type.upperPart? op literal).isSome = true) :
    (type.cell v).meets (type.lowerPart? op literal) literal = true ∧
        (type.cell v).meets (type.upperPart? op literal) literal = true ↔
      op.Accepts (type.cell v) literal ∨ (type.cell v).overreaches op literal = true := by
  rw [← Cell.satisfies_iff (asFloat?_cell type v) hl]
  cases type with
  | integer t =>
    rw [meets_parts_iff_of_isFinite (isNarrowing_of_isSome h) hl rfl]
    exact (or_iff_left Bool.false_ne_true).symm
  | double =>
    by_cases hop : op = .eq
    · subst hop
      obtain ⟨l, hf⟩ := Value.exists_asFloat? hl
      exact meets_parts_eq_iff hv hf
    · rw [meets_parts_of_ne_eq hop h]
      have ho : (ElementType.double.cell v).overreaches op literal = false := by
        simp only [ElementType.cell, Cell.overreaches, beq_eq_false_iff_ne.mpr hop, Bool.false_and]
      simp only [ho, Bool.false_eq_true, or_false]

end ElementType

/-! ## Binary search -/

section Search

variable {α : Type} {xs : Array α} {p : α → Bool} {lo hi : Nat}

theorem partitionPoint_mem (h : hi ≤ xs.size) (hle : lo ≤ hi) :
    lo ≤ partitionPoint xs p lo hi h ∧ partitionPoint xs p lo hi h ≤ hi := by
  fun_induction partitionPoint xs p lo hi h with
  | case1 lo hi h hlt _ ih => have := ih (by omega); omega
  | case2 lo hi h hlt _ ih => have := ih (by omega); omega
  | case3 => exact ⟨Nat.le_refl _, hle⟩

theorem lt_partitionPoint_iff (h : hi ≤ xs.size)
    (hp : ∀ i j (hx : i < xs.size) (hy : j < xs.size), i ≤ j → p xs[j] = true → p xs[i] = true)
    {i : Nat} (hlo : lo ≤ i) (hhi : i < hi) (hsize : i < xs.size) :
    i < partitionPoint xs p lo hi h ↔ p xs[i] = true := by
  fun_induction partitionPoint xs p lo hi h with
  | case1 lo hi h hlt hm ih =>
    rcases Nat.lt_or_ge (lo + (hi - lo) / 2) i with hi' | hi'
    · exact ih (by omega) hhi
    · have := partitionPoint_mem (p := p) h (show lo + (hi - lo) / 2 + 1 ≤ hi by omega)
      exact iff_of_true (by omega) (hp _ _ _ _ hi' hm)
  | case2 lo hi h hlt hm ih =>
    rcases Nat.lt_or_ge i (lo + (hi - lo) / 2) with hi' | hi'
    · exact ih hlo hi'
    · have hmid : lo + (hi - lo) / 2 ≤ xs.size := by omega
      have := partitionPoint_mem (p := p) hmid (show lo ≤ lo + (hi - lo) / 2 by omega)
      exact iff_of_false (by omega) fun h => hm (hp _ _ _ _ hi' h)
  | case3 => omega

end Search

/-! ## Bounds -/

namespace ElementType

variable {type : ElementType} {values : Array type.Elem} {op : Operator} {literal : Value}

theorem sortedBounds_cases (type : ElementType) (values : Array type.Elem) (op : Operator)
    (literal : Value) :
    type.sortedBounds values op literal = .full (rowLength values.size) ∨
      literal.isNumeric = true ∧
      ((type.lowerPart? op literal).isSome = true ∨ (type.upperPart? op literal).isSome = true) ∧
      ∃ first last, type.sortedBounds values op literal = ⟨rowLength first, rowLength last, true⟩ ∧
        first = partitionPoint values
          (fun v => !(type.cell v).meets (type.lowerPart? op literal) literal) 0 values.size
          (Nat.le_refl _) ∧
        last = partitionPoint values
          (fun v => (type.cell v).meets (type.upperPart? op literal) literal) first values.size
          (Nat.le_refl _) := by
  unfold sortedBounds
  dsimp only
  split
  · exact .inl rfl
  · rename_i h
    right
    simp only [Bool.or_eq_true, Bool.not_eq_true', Bool.and_eq_true, Option.isNone_iff_eq_none,
      not_or, Bool.not_eq_false, Decidable.not_and_iff_not_or_not, ← Option.isSome_iff_ne_none] at h
    exact ⟨h.1, h.2, _, _, rfl, rfl, rfl⟩

theorem sortedBounds_le (type : ElementType) (values : Array type.Elem) (op : Operator)
    (literal : Value) :
    (type.sortedBounds values op literal).lo ≤ (type.sortedBounds values op literal).hi ∧
      (type.sortedBounds values op literal).hi ≤ rowLength values.size := by
  rcases sortedBounds_cases type values op literal with h | ⟨_, _, first, last, h, hf, hl⟩
  · rw [h]
    exact ⟨Nat.zero_le _, Nat.le_refl _⟩
  · have h1 : first ≤ values.size := by
      rw [hf]
      exact (partitionPoint_mem _ (Nat.zero_le _)).2
    obtain ⟨h2, h3⟩ : first ≤ last ∧ last ≤ values.size := by
      rw [hl]
      exact partitionPoint_mem _ h1
    rw [h]
    simp only [rowLength]
    omega

theorem consumed_sortedBounds_iff : (type.sortedBounds values op literal).consumed = true ↔
    literal.isNumeric = true ∧ ((type.lowerPart? op literal).isSome = true ∨
      (type.upperPart? op literal).isSome = true) := by
  unfold sortedBounds
  cases literal.isNumeric <;> cases type.lowerPart? op literal <;>
    cases type.upperPart? op literal <;> simp [Bounds.full]

theorem isSome_parts_eq {l : Binary64} (hl : literal.asFloat? = some l) (hn : l.isNaN = false) :
    (double.lowerPart? .eq literal).isSome = true ∨
      (double.upperPart? .eq literal).isSome = true := by
  by_cases h : (double.cell double.least).satisfies .ge literal = true
  · right
    have hle : ¬ (double.cell double.greatest).satisfies .le literal = true := by
      change (Cell.float .least).satisfies .ge literal = true at h
      change ¬ (Cell.float .greatest).satisfies .le literal = true
      rw [Cell.satisfies_float_iff hl, Operator.relatesDoubles_iff Binary64.isNaN_least hn,
        Operator.Relates, Binary64.key_least] at h
      rw [Cell.satisfies_float_iff hl, Operator.relatesDoubles_iff Binary64.isNaN_greatest hn,
        Operator.Relates, Binary64.key_greatest]
      have hw : 1 < Binary64.infinityWord := by decide
      omega
    simp only [upperPart?, Operator.upperPart?, Option.filter_some, hle, Bool.and_false,
      Bool.not_false, if_true, Option.isSome_some]
  · left
    simp only [lowerPart?, Operator.lowerPart?, Option.filter_some, h, Bool.and_false,
      Bool.not_false, if_true, Option.isSome_some]

theorem contains_sortedBounds_iff
    (hs : ∀ i j (hi : i < values.size) (hj : j < values.size), i ≤ j →
      (type.cell values[i]).AtMost (type.cell values[j]))
    (hc : (type.sortedBounds values op literal).consumed = true) {row : Nat}
    (hrow : row < values.size) (hlimit : row < rowLimit) :
    (type.sortedBounds values op literal).contains row = true ↔
      (type.cell values[row]).meets (type.lowerPart? op literal) literal = true ∧
        (type.cell values[row]).meets (type.upperPart? op literal) literal = true := by
  rcases sortedBounds_cases type values op literal with h | ⟨hl, _, first, last, h, hf, hlast⟩
  · rw [h] at hc
    cases hc
  have hlower : row < first ↔
      ¬ (type.cell values[row]).meets (type.lowerPart? op literal) literal = true := by
    rw [hf, lt_partitionPoint_iff _ ?_ (Nat.zero_le _) hrow hrow, Bool.not_eq_true',
      Bool.not_eq_true]
    intro i j hi hj hij hm
    cases hx : (type.cell values[i]).meets (type.lowerPart? op literal) literal with
    | false => rfl
    | true => rw [meets_lowerPart?_mono hl (hs i j hi hj hij) hx] at hm; exact hm
  have hupper (hge : first ≤ row) : row < last ↔
      (type.cell values[row]).meets (type.upperPart? op literal) literal = true := by
    rw [hlast, lt_partitionPoint_iff _ ?_ hge hrow hrow]
    intro i j hi hj hij hm
    exact meets_upperPart?_mono hl (hs i j hi hj hij) hm
  rw [h, Bounds.contains_iff]
  have hlo : rowLength first ≤ row ↔ first ≤ row := by simp only [rowLength]; omega
  have hhi : row < rowLength last ↔ row < last := by simp only [rowLength]; omega
  rw [hlo, hhi]
  rcases Nat.lt_or_ge row first with hlt | hge
  · exact iff_of_false (fun h => absurd h.1 (Nat.not_le.mpr hlt)) fun h => hlower.mp hlt h.1
  · rw [hupper hge]
    exact and_congr_left fun _ => iff_of_true hge
      (Decidable.not_not.mp fun hn => absurd (hlower.mpr hn) (Nat.not_lt.mpr hge))

end ElementType

namespace Column

variable {c : Column} {op : Operator} {literal : Value} {row : Nat}

/-- Whether a row lies in the storage of a column. -/
def HasRow (c : Column) (row : Nat) : Prop := row < rowLimit ∧ ∀ n ∈ c.rowCount?, row < n

theorem lt_of_lt_rowLength {length row : Nat} (h : row < rowLength length) : row < length :=
  Nat.lt_of_lt_of_le h (Nat.min_le_left _ _)

theorem HasRow.exists_cell (h : c.HasRow row) (hn : c.isNumeric = true) :
    ∃ x, c.cell? row = some x := by
  obtain ⟨_, hr⟩ := h
  cases c with
  | numeric name type values =>
    exact ⟨_, cell?_numeric_of_lt (lt_of_lt_rowLength (hr _ rfl))⟩
  | text => cases hn
  | endTime name starts durations =>
    obtain ⟨hs, hd⟩ := Nat.lt_min.mp (lt_of_lt_rowLength (hr _ rfl))
    exact ⟨_, by simp only [cell?, Array.getElem?_eq_getElem hs, Array.getElem?_eq_getElem hd]; rfl⟩
  | rowId => exact ⟨_, rfl⟩

theorem HasRow.exists_text {n : Nat} (h : c.HasRow row) (hi : c.InternedBelow n) (hrow : row < n) :
    ∃ x, c.cell? row = some x := by
  cases hn : c.isNumeric with
  | true => exact h.exists_cell hn
  | false =>
    cases c with
    | text name ids strings =>
      have hids : row < ids.size := lt_of_lt_rowLength (h.2 _ rfl)
      have hid : ids[row] < strings.size := hi row hrow _ (Array.getElem?_eq_getElem hids)
      exact ⟨_, by simp only [cell?, Array.getElem?_eq_getElem hids,
        Option.bind_eq_bind, Option.bind_some, Array.getElem?_eq_getElem hid]; rfl⟩
    | numeric => cases hn
    | endTime => cases hn
    | rowId => cases hn

theorem bounds_cases (c : Column) (op : Operator) (literal : Value) :
    c.bounds op literal = (c.rowCount?.map Bounds.full).getD .unlimited ∨
      ∃ name type values hidden, c = .numeric name type values hidden true ∧
        c.bounds op literal = type.sortedBounds values op literal := by
  cases c with
  | numeric name type values hidden ordered =>
    cases ordered with
    | false => exact .inl rfl
    | true => exact .inr ⟨_, _, _, _, rfl, rfl⟩
  | text => exact .inl rfl
  | endTime => exact .inl rfl
  | rowId => exact .inl rfl

theorem lo_bounds_le (c : Column) (op : Operator) (literal : Value) :
    (c.bounds op literal).lo ≤ (c.bounds op literal).hi := by
  rcases c.bounds_cases op literal with h | ⟨_, type, values, _, rfl, h⟩
  · rw [h]
    cases c.rowCount? <;> exact Nat.zero_le _
  · rw [h]
    exact (type.sortedBounds_le values op literal).1

theorem isNumeric_of_consumed (h : (c.bounds op literal).consumed = true) :
    c.isNumeric = true ∧ c.naturallyOrdered = true ∧ literal.isNumeric = true := by
  rcases c.bounds_cases op literal with hb | ⟨_, type, values, _, rfl, hb⟩
  · rw [hb] at h
    cases hn : c.rowCount? <;> rw [hn] at h <;> cases h
  · rcases type.sortedBounds_cases values op literal with hs | ⟨hl, _⟩
    · rw [hb, hs] at h
      cases h
    · exact ⟨rfl, rfl, hl⟩

theorem bounds_of_not_consumed (h : (c.bounds op literal).consumed = false) :
    c.bounds op literal = (c.rowCount?.map Bounds.full).getD .unlimited := by
  rcases c.bounds_cases op literal with hb | ⟨_, type, values, _, rfl, hb⟩
  · exact hb
  · rcases type.sortedBounds_cases values op literal with hs | ⟨_, _, _, _, hs, _⟩
    · exact hb.trans hs
    · rw [hb, hs] at h
      cases h

theorem contains_bounds_of_not_consumed (h : (c.bounds op literal).consumed = false)
    (hr : c.HasRow row) : (c.bounds op literal).contains row = true := by
  rw [Bounds.contains_iff, bounds_of_not_consumed h]
  cases hn : c.rowCount? with
  | none => exact ⟨Nat.zero_le _, hr.1⟩
  | some n => exact ⟨Nat.zero_le _, hr.2 n hn⟩

theorem atMost_of_ascending {name : String} {type : ElementType} {values : Array type.Elem}
    {hidden : Bool} (hs : (numeric name type values hidden true).Ascending)
    (hn : (numeric name type values hidden true).All (!·.isNaN)) (i j : Nat) (hi : i < values.size)
    (hj : j < values.size) (hij : i ≤ j) :
    (type.cell values[i]).AtMost (type.cell values[j]) := by
  have hci : (numeric name type values hidden true).cell? i = some (type.cell values[i]) :=
    cell?_numeric_of_lt hi
  have hcj : (numeric name type values hidden true).cell? j = some (type.cell values[j]) :=
    cell?_numeric_of_lt hj
  have hni := hn i _ hci
  have hnj := hn j _ hcj
  have hbefore : ¬ (type.cell values[j]).Before (type.cell values[i]) := by
    rcases Nat.lt_or_eq_of_le hij with hlt | rfl
    · exact hs i j _ _ hlt hci hcj
    · exact Cell.not_before_self
  cases type with
  | integer t => exact Int.not_lt.mp fun h => hbefore (.integer h)
  | double =>
    simp only [ElementType.cell, Cell.isNaN, Bool.not_eq_true'] at hni hnj
    exact ⟨hni, hnj, Int.not_lt.mp fun h => hbefore (.number hnj hni h)⟩

/--
Bounds that answer a constraint hold exactly the rows that meet it, and infinities next to its
literal.
-/
theorem contains_bounds_iff (hs : c.naturallyOrdered = true → c.Ascending)
    (hn : c.naturallyOrdered = true → c.All (!·.isNaN))
    (h : (c.bounds op literal).consumed = true) (hr : c.HasRow row) :
    (c.bounds op literal).contains row = true ↔
      ∃ x ∈ c.cell? row, op.Accepts x literal ∨ x.overreaches op literal = true := by
  rcases c.bounds_cases op literal with hb | ⟨name, type, values, hidden, rfl, hb⟩
  · rw [hb] at h
    cases hc : c.rowCount? <;> rw [hc] at h <;> cases h
  rw [hb] at h ⊢
  have hrow : row < values.size := lt_of_lt_rowLength (hr.2 _ rfl)
  have hcell : (numeric name type values hidden true).cell? row = some (type.cell values[row]) :=
    cell?_numeric_of_lt hrow
  have hnan : (type.cell values[row]).isNaN = false := by
    simpa only [Bool.not_eq_true'] using hn rfl row _ hcell
  rcases type.sortedBounds_cases values op literal with hfull | ⟨hl, hparts, _⟩
  · rw [hfull] at h
    cases h
  rw [ElementType.contains_sortedBounds_iff (atMost_of_ascending (hs rfl) (hn rfl)) h hrow hr.1,
    ElementType.meets_parts_iff _ hnan hl hparts, hcell]
  simp only [Option.mem_def, Option.some.injEq, exists_eq_left']

theorem consumed_of_overreaches (hc : c.naturallyOrdered = true) {x : Cell}
    (hx : c.cell? row = some x) (h : x.overreaches op literal = true) :
    (c.bounds op literal).consumed = true := by
  cases c with
  | text => cases hc
  | endTime => cases hc
  | rowId => cases hc
  | numeric name type values hidden ordered =>
    obtain rfl : ordered = true := hc
    obtain ⟨v, _, rfl⟩ := Option.map_eq_some_iff.mp hx
    cases type with
    | integer t => cases h
    | double =>
      simp only [ElementType.cell, Cell.overreaches, Bool.and_eq_true, beq_iff_eq] at h
      obtain ⟨⟨rfl, _⟩, hl⟩ := h
      refine ElementType.consumed_sortedBounds_iff.mpr ⟨?_, ElementType.isSome_parts_eq hl ?_⟩
      · cases literal <;> first | rfl | cases hl
      · cases v.isNegative <;> rfl

end Column

end Columnar
