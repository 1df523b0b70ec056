import Columnar.Candidates

/-! # Candidates as lists

All forms of a candidate set are viewed as the list of its rows. A filter tests exactly these rows,
once each and in order, and keeps those that pass.
-/

namespace Columnar.Candidates

/-- The rows whose flags are set. -/
def flagged : List Nat → List Bool → List Nat
  | row :: rows, flag :: flags => if flag then row :: flagged rows flags else flagged rows flags
  | _, _ => []

theorem filter_range'_eq_flagged (flags : List Bool) (start : Nat) :
    (List.range' start flags.length).filter (fun row => flags[row - start]?.getD false) =
      flagged (List.range' start flags.length) flags := by
  induction flags generalizing start with
  | nil => rfl
  | cons flag flags ih =>
    have htail : (List.range' (start + 1) flags.length).filter
        (fun row => (flag :: flags)[row - start]?.getD false) =
          flagged (List.range' (start + 1) flags.length) flags := by
      rw [← ih]
      apply List.filter_congr
      intro row hrow
      have hle := (List.mem_range'_1.mp hrow).1
      rw [show row - start = row - (start + 1) + 1 by omega, List.getElem?_cons_succ]
    rw [List.length_cons, List.range'_succ, List.filter_cons, htail]
    simp only [Nat.sub_self, List.getElem?_cons_zero, Option.getD_some, flagged]

theorem length_flagged (rows : List Nat) (flags : List Bool) (h : flags.length = rows.length) :
    (flagged rows flags).length = flags.count true := by
  induction rows generalizing flags with
  | nil =>
    obtain rfl := List.length_eq_zero_iff.mp h
    rfl
  | cons row rows ih =>
    cases flags with
    | nil => cases h
    | cons flag flags =>
      have ih := ih flags (Nat.succ.inj h)
      cases flag
      · simp [flagged, ih]
      · simp [flagged, ih]

theorem toList_flags {start stop : Nat} (h : start ≤ stop) (flags : Vector Bool (stop - start)) :
    toList ⟨start, stop, h, .flags flags⟩ =
      flagged (List.range' start (stop - start)) flags.toList := by
  have hf := filter_range'_eq_flagged flags.toList start
  rw [Vector.length_toList] at hf
  rw [← hf]
  apply List.filter_congr
  intro row hrow
  have hmem : start ≤ row ∧ row < start + (stop - start) := List.mem_range'_1.mp hrow
  have hlt : row - start < stop - start := by omega
  rw [Vector.getElem?_toList, Vector.getElem?_eq_getElem hlt, Option.getD_some]
  exact dif_pos (show start ≤ row ∧ row < stop by omega)

theorem range_filter_contains {c : Candidates} (h : ∀ rows, c.form ≠ .listed rows) :
    c.range.filter c.contains = c.toList := by
  unfold toList
  split
  · rename_i hf
    apply List.filter_eq_self.mpr
    intro row hrow
    have hle := c.start_le_stop
    have hmem := List.mem_range'_1.mp hrow
    simp only [contains, hf, inRange_iff]
    omega
  · rfl
  · rename_i rows hf
    exact absurd hf (h rows)

theorem count_eq_length (c : Candidates) : c.count = c.toList.length := by
  obtain ⟨start, stop, hle, form⟩ := c
  cases form with
  | all => simp [count, toList, range]
  | flags flags =>
    rw [toList_flags hle flags, length_flagged]
    · exact (Vector.count_toList).symm
    · rw [Vector.length_toList, List.length_range']
  | listed rows => rfl

section Monadic

variable {m : Type → Type} [Monad m] [LawfulMonad m]

theorem flagged_mapM (p : Nat → m Bool) (q : Nat → Bool) (rows : List Nat) :
    (flagged rows <$> rows.mapM fun row => if q row then p row else pure false) =
      keepM p (rows.filter q) := by
  induction rows with
  | nil => simp [flagged, keepM]
  | cons row rows ih =>
    cases hq : q row
    · simp [hq, flagged, ← ih]
    · simp [hq, keepM, flagged, ← ih]

theorem map_mapM_range' (f : Nat → m Bool) (g : List Bool → List Nat) {start n : Nat} :
    (fun flags => g flags.toList) <$> (Vector.range' start n).mapM f =
      g <$> (List.range' start n).mapM f := by
  have h : Vector.toList <$> (Vector.range' start n).mapM f = (List.range' start n).mapM f := by
    have hv : Array.toList <$> (Vector.toArray <$> (Vector.range' start n).mapM f) =
        (List.range' start n).mapM f := by
      rw [Vector.toArray_mapM, Array.toList_mapM, Vector.toArray_range', Array.toList_range']
    rwa [Functor.map_map] at hv
  rw [← h, Functor.map_map]

/-- A filter runs its predicate once on each candidate, in order, and keeps those that pass. -/
theorem toList_filterM (p : Nat → m Bool) (c : Candidates) :
    toList <$> c.filterM p = keepM p c.toList := by
  obtain ⟨start, stop, hle, form⟩ := c
  have hflags (hform : ∀ rows, form ≠ .listed rows) :
      (toList <$> do
        let flags ← (Vector.range' start (stop - start)).mapM fun row =>
          if contains ⟨start, stop, hle, form⟩ row then p row else pure false
        return (⟨start, stop, hle, .flags flags⟩ : Candidates)) =
      keepM p (toList ⟨start, stop, hle, form⟩) := by
    rw [← range_filter_contains hform, range, ← flagged_mapM]
    simp only [bind_pure_comp, Functor.map_map, toList_flags]
    exact map_mapM_range' _ _
  cases form with
  | listed rows => simp [filterM, toList]
  | all => exact hflags (by simp)
  | flags flags => exact hflags (by simp)

end Monadic

theorem toList_filter (p : Nat → Bool) (c : Candidates) :
    (c.filter p).toList = c.toList.filter p := by
  have hk (rows : List Nat) :
      keepM (fun row => (pure (p row) : Id Bool)) rows = rows.filter p := by
    induction rows with
    | nil => rfl
    | cons row rows ih =>
      rw [List.filter_cons, ← ih]
      rfl
  exact (toList_filterM (fun row => (pure (p row) : Id Bool)) c).trans (hk _)

theorem keepM_defined {p : Nat → Option Bool} {rows : List Nat}
    (h : ∀ row ∈ rows, (p row).isSome = true) :
    keepM (m := StateM Bool) (fun row defined =>
        match if defined then p row else none with
        | some keep => (keep, true)
        | none => (true, false)) rows true =
      (rows.filter (p · == some true), true) := by
  induction rows with
  | nil => rfl
  | cons row rows ih =>
    obtain ⟨keep, hkeep⟩ := Option.isSome_iff_exists.mp (h row List.mem_cons_self)
    have ih := ih fun r hr => h r (List.mem_cons_of_mem _ hr)
    simp only [keepM, bind, StateT.bind, if_true, hkeep, ih, List.filter_cons]
    cases keep <;> rfl

theorem filterDefined_of_isSome {p : Nat → Option Bool} {c : Candidates}
    (h : ∀ row ∈ c.toList, (p row).isSome = true) :
    (c.filterDefined p).1.toList = c.toList.filter (p · == some true) ∧
      (c.filterDefined p).2 = true := by
  have hstate := fun s => congrFun (toList_filterM (m := StateM Bool) s c) true
  unfold filterDefined
  split
  · rename_i hf
    have hall : (Nat.all (c.stop - c.start) fun i _ => (p (c.start + i)).isSome) = true := by
      rw [Nat.all_eq_finRange_all, List.all_eq_true]
      intro i _
      apply h
      simp only [toList, hf, range, List.mem_range'_1]
      omega
    rw [if_pos hall]
    exact ⟨toList_filter _ c, rfl⟩
  · have hk := (hstate _).trans (keepM_defined h)
    exact Prod.ext_iff.mp hk

end Columnar.Candidates
