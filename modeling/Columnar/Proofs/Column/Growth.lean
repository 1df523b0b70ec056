import Columnar.Proofs.Column.Bounds

/-! # Columns that grow

Storage is only ever appended to. A column that has grown holds at its old rows what it held there
before, and bounds of ascending numbers cut the old rows as they did.
-/

namespace Columnar.Column

/-- Whether a column is an earlier one whose storage has been appended to. -/
inductive GrowsTo : Column → Column → Prop where
  | numeric {name : String} {type : ElementType} {hidden ordered : Bool}
      (values more : Array type.Elem) :
      GrowsTo (.numeric name type values hidden ordered)
        (.numeric name type (values ++ more) hidden ordered)
  | text {name : String} {hidden : Bool} (ids more : Array Nat) (strings others : Array String) :
      GrowsTo (.text name ids strings hidden) (.text name (ids ++ more) (strings ++ others) hidden)
  | endTime {name : String} (starts moreStarts durations moreDurations : Array Int64) :
      GrowsTo (.endTime name starts durations)
        (.endTime name (starts ++ moreStarts) (durations ++ moreDurations))
  | rowId {name : String} {table : UInt8} : GrowsTo (.rowId name table) (.rowId name table)

/-- The column with what is stored for its first `n` rows. Tables of strings stay whole. -/
def take (n : Nat) : Column → Column
  | numeric name type values hidden ordered => numeric name type (values.take n) hidden ordered
  | text name ids strings hidden => text name (ids.take n) strings hidden
  | endTime name starts durations => endTime name (starts.take n) (durations.take n)
  | rowId name table => rowId name table

/-- Whether two columns of one name and kind are alike to scans of their first `n` rows. -/
structure SameBelow (n : Nat) (c d : Column) : Prop where
  name : c.name = d.name
  isNumeric : c.isNumeric = d.isNumeric
  naturallyOrdered : c.naturallyOrdered = d.naturallyOrdered
  cell? : ∀ row < n, c.cell? row = d.cell? row
  consumed : ∀ op literal, (c.bounds op literal).consumed = (d.bounds op literal).consumed
  contains : ∀ op literal, ∀ row < n,
    (c.bounds op literal).contains row = (d.bounds op literal).contains row

variable {c d : Column} {n row : Nat} {x : Cell}

/-! ## Beginnings of columns -/

theorem array_take_append_drop {α : Type} (xs : Array α) (n : Nat) :
    xs.take n ++ xs.drop n = xs := by
  rw [Array.take_eq_extract, Array.drop_eq_extract, Array.extract_append_extract, Nat.zero_min]
  exact Array.extract_eq_self_of_le (Nat.le_max_right _ _)

theorem growsTo_of_take (c : Column) (n : Nat) : (c.take n).GrowsTo c := by
  cases c with
  | numeric name type values hidden ordered =>
    have h : (take n (numeric name type values hidden ordered)).GrowsTo
        (numeric name type (values.take n ++ values.drop n) hidden ordered) := .numeric _ _
    rwa [array_take_append_drop] at h
  | text name ids strings hidden =>
    have h : (take n (text name ids strings hidden)).GrowsTo
        (text name (ids.take n ++ ids.drop n) (strings ++ #[]) hidden) := .text _ _ _ _
    rwa [array_take_append_drop, Array.append_empty] at h
  | endTime name starts durations =>
    have h : (take n (endTime name starts durations)).GrowsTo
        (endTime name (starts.take n ++ starts.drop n) (durations.take n ++ durations.drop n)) :=
      .endTime _ _ _ _
    rwa [array_take_append_drop, array_take_append_drop] at h
  | rowId => exact .rowId

theorem rowCount?_take (c : Column) (n : Nat) :
    (c.take n).rowCount? = c.rowCount?.map (min n) := by
  cases c with
  | rowId => rfl
  | _ =>
    simp only [take, rowCount?, rowLength, Array.take_eq_extract, Array.size_extract,
      Option.map_some, Option.some.injEq]
    omega

theorem InternedBelow.take (h : c.InternedBelow n) : (c.take n).InternedBelow n := by
  cases c with
  | text name ids strings hidden =>
    intro row hrow id hid
    rw [Array.take_eq_extract, Array.getElem?_extract, Nat.zero_add] at hid
    split at hid
    · exact h row hrow id hid
    · cases hid
  | _ => trivial

/-! ## Grown columns -/

theorem array_getElem?_append {α : Type} {xs : Array α} {i : Nat} {x : α} (h : xs[i]? = some x)
    (ys : Array α) : (xs ++ ys)[i]? = some x := by
  obtain ⟨hi, _⟩ := Array.getElem?_eq_some_iff.mp h
  rwa [Array.getElem?_append_left hi]

namespace GrowsTo

theorem exists_rowCount?_le (h : c.GrowsTo d) {k : Nat} (hk : k ∈ d.rowCount?) :
    ∃ m ∈ c.rowCount?, m ≤ k := by
  cases h <;> simp only [rowCount?, Option.mem_def, Option.some.injEq, reduceCtorEq] at hk ⊢
  all_goals
    subst hk
    refine ⟨_, rfl, ?_⟩
    simp only [rowLength, Array.size_append]
    omega

theorem hasRow (h : c.GrowsTo d) (hr : c.HasRow row) : d.HasRow row := by
  refine ⟨hr.1, fun k hk => ?_⟩
  obtain ⟨m, hm, hle⟩ := h.exists_rowCount?_le hk
  exact Nat.lt_of_lt_of_le (hr.2 m hm) hle

theorem cell?_eq_some (h : c.GrowsTo d) (hx : c.cell? row = some x) : d.cell? row = some x := by
  cases h with
  | numeric values more =>
    obtain ⟨v, hv, rfl⟩ := cell?_cases hx
    simp only [cell?, array_getElem?_append hv, Option.map_some]
  | text ids more strings others =>
    simp only [cell?, Option.bind_eq_bind, Option.bind_eq_some_iff] at hx ⊢
    obtain ⟨id, hid, string, hstring, hx⟩ := hx
    exact ⟨id, array_getElem?_append hid _, string, array_getElem?_append hstring _, hx⟩
  | endTime starts moreStarts durations moreDurations =>
    simp only [cell?, Option.bind_eq_bind, Option.bind_eq_some_iff] at hx ⊢
    obtain ⟨start, hstart, duration, hduration, hx⟩ := hx
    exact ⟨start, array_getElem?_append hstart _, duration, array_getElem?_append hduration _, hx⟩
  | rowId => exact hx

theorem internedBelow (h : c.GrowsTo d) (hr : ∀ row < n, c.HasRow row) (hi : c.InternedBelow n) :
    d.InternedBelow n := by
  cases h with
  | text ids more strings others =>
    intro row hrow id hid
    have hsize : row < ids.size := lt_of_lt_rowLength ((hr row hrow).2 _ rfl)
    rw [Option.mem_def, Array.getElem?_append_left hsize] at hid
    have hlt := hi row hrow id hid
    rw [Array.size_append]
    omega
  | _ => trivial

theorem name_eq (h : c.GrowsTo d) : c.name = d.name := by
  cases h <;> rfl

theorem isNumeric_eq (h : c.GrowsTo d) : c.isNumeric = d.isNumeric := by
  cases h <;> rfl

theorem naturallyOrdered_eq (h : c.GrowsTo d) : c.naturallyOrdered = d.naturallyOrdered := by
  cases h <;> rfl

theorem ascending (h : c.GrowsTo d) (hs : d.Ascending) : c.Ascending :=
  fun i j _ _ hij hx hy => hs i j _ _ hij (h.cell?_eq_some hx) (h.cell?_eq_some hy)

theorem all {p : Cell → Bool} (h : c.GrowsTo d) (hp : d.All p) : c.All p :=
  fun row _ hx => hp row _ (h.cell?_eq_some hx)

theorem consumed_eq (h : c.GrowsTo d) (op : Operator) (literal : Value) :
    (c.bounds op literal).consumed = (d.bounds op literal).consumed := by
  cases h with
  | @numeric _ type _ ordered values more =>
    cases ordered with
    | false => rfl
    | true =>
      rw [Bool.eq_iff_iff]
      exact ElementType.consumed_sortedBounds_iff.trans ElementType.consumed_sortedBounds_iff.symm
  | _ => rfl

/-- Rows that a column has had before it grew are the same to a scan after. -/
theorem sameBelow (h : c.GrowsTo d) (hr : ∀ row < n, c.HasRow row) (hi : c.InternedBelow n)
    (hs : d.naturallyOrdered = true → d.Ascending)
    (hn : d.naturallyOrdered = true → d.All (!·.isNaN)) : c.SameBelow n d := by
  have hcell (row : Nat) (hrow : row < n) : c.cell? row = d.cell? row := by
    obtain ⟨x, hx⟩ := (hr row hrow).exists_text hi hrow
    rw [hx, h.cell?_eq_some hx]
  refine ⟨h.name_eq, h.isNumeric_eq, h.naturallyOrdered_eq, hcell, h.consumed_eq, ?_⟩
  intro op literal row hrow
  have hrc := hr row hrow
  have hrd := h.hasRow hrc
  have hord := h.naturallyOrdered_eq
  rw [Bool.eq_iff_iff]
  cases hcons : (d.bounds op literal).consumed with
  | false =>
    have hcons' := (h.consumed_eq op literal).trans hcons
    exact iff_of_true (contains_bounds_of_not_consumed hcons' hrc)
      (contains_bounds_of_not_consumed hcons hrd)
  | true =>
    have hcons' := (h.consumed_eq op literal).trans hcons
    rw [contains_bounds_iff (fun ho => h.ascending (hs (hord ▸ ho)))
      (fun ho => h.all (hn (hord ▸ ho))) hcons' hrc, contains_bounds_iff hs hn hcons hrd,
      hcell row hrow]

end GrowsTo

end Columnar.Column
