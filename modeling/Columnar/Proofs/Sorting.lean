import Mathlib.Data.List.Sort
import Columnar.Text

/-! # Stable sorts

Sorting by a comparator that is a total preorder brings a list in order, and elements that tie stay
in the order in which they were given. Text is ordered by its bytes, so texts that tie are equal.
-/

namespace Columnar

section Sorting

variable {α : Type} {cmp : α → α → Ordering} [Std.TransCmp cmp]

theorem isLE_total (a b : α) : ((cmp a b).isLE || (cmp b a).isLE) = true := by
  have h : cmp b a = (cmp a b).swap := Std.OrientedCmp.eq_swap
  rw [h]
  cases cmp a b <;> rfl

variable (cmp) (xs : List α)

theorem pairwise_mergeSort_isLE :
    (xs.mergeSort fun a b => (cmp a b).isLE).Pairwise fun a b => (cmp a b).isLE = true :=
  List.pairwise_mergeSort (fun _ _ _ => Std.TransCmp.isLE_trans) isLE_total _

theorem pairwise_filter_tied (a : α) :
    (xs.filter (cmp a · == .eq)).Pairwise fun b c => (cmp b c).isLE = true := by
  refine List.pairwise_of_forall_mem_list fun b hb c hc => ?_
  have hb : cmp a b = .eq := eq_of_beq (List.mem_filter.mp hb).2
  have hc : cmp a c = .eq := eq_of_beq (List.mem_filter.mp hc).2
  rw [Std.TransCmp.eq_trans (Std.OrientedCmp.eq_symm hb) hc]
  rfl

theorem filter_eq_of_sublist {p : α → Bool} {ys : List α} (hperm : ys.Perm xs)
    (hsub : (xs.filter p).Sublist ys) : ys.filter p = xs.filter p := by
  -- The list adds no elements to the sublist, so the sublist is all of those that it selects.
  have hsub := hsub.filter p
  simp only [List.filter_filter, Bool.and_self] at hsub
  exact (hsub.eq_of_length (hperm.filter p).length_eq.symm).symm

theorem filter_mergeSort_isLE (a : α) :
    (xs.mergeSort fun a b => (cmp a b).isLE).filter (cmp a · == .eq) =
      xs.filter (cmp a · == .eq) :=
  filter_eq_of_sublist xs (List.mergeSort_perm _ _) (List.sublist_mergeSort
    (fun _ _ _ => Std.TransCmp.isLE_trans) isLE_total (pairwise_filter_tied cmp xs a)
    List.filter_sublist)

/-- Lists in order are equal if they hold the same elements of each rank in the same order. -/
theorem eq_of_filter_eq {xs ys : List α} (hxs : xs.Pairwise fun a b => (cmp a b).isLE = true)
    (hys : ys.Pairwise fun a b => (cmp a b).isLE = true)
    (h : ∀ a, xs.filter (cmp a · == .eq) = ys.filter (cmp a · == .eq)) : xs = ys := by
  have mem_of_mem {xs ys : List α} {a : α} (ha : a ∈ xs)
      (h : ∀ a, xs.filter (cmp a · == .eq) = ys.filter (cmp a · == .eq)) : a ∈ ys := by
    have hself : (cmp a a == .eq) = true := beq_iff_eq.mpr Std.ReflCmp.compare_self
    exact List.mem_of_mem_filter (h a ▸ List.mem_filter.mpr ⟨ha, hself⟩)
  induction xs generalizing ys with
  | nil =>
    cases ys with
    | nil => rfl
    | cons y ys => cases mem_of_mem List.mem_cons_self fun a => (h a).symm
  | cons x xs ih =>
    cases ys with
    | nil => cases mem_of_mem List.mem_cons_self h
    | cons y ys =>
      -- Either head is least in its list, so the heads tie, and of the elements that tie with
      -- them either list has its head first.
      have least {z w : α} {zs : List α} (hz : (z :: zs).Pairwise fun a b => (cmp a b).isLE = true)
          (hw : w ∈ z :: zs) : (cmp z w).isLE = true := by
        rcases List.mem_cons.mp hw with rfl | hw
        · exact Std.ReflCmp.isLE_rfl
        · exact List.rel_of_pairwise_cons hz hw
      have htie : cmp x y = .eq := Std.OrientedCmp.isLE_antisymm
        (least hxs (mem_of_mem List.mem_cons_self fun a => (h a).symm))
        (least hys (mem_of_mem List.mem_cons_self h))
      have hself : cmp x x = .eq := Std.ReflCmp.compare_self
      have hheads := h x
      simp only [List.filter_cons, hself, htie, beq_self_eq_true, if_true] at hheads
      obtain ⟨rfl, -⟩ := List.cons.inj hheads
      refine congrArg (x :: ·) (ih hxs.tail hys.tail fun a => ?_)
      have htails := h a
      rw [List.filter_cons, List.filter_cons] at htails
      split at htails
      · exact (List.cons.inj htails).2
      · exact htails

/-- Sorting by insertion is stable too, and unlike sorting by merging it can be evaluated. -/
theorem mergeSort_isLE_eq_insertionSort :
    (xs.mergeSort fun a b => (cmp a b).isLE) =
      xs.insertionSort fun a b => (cmp a b).isLE = true := by
  have htotal : Std.Total fun a b => (cmp a b).isLE = true :=
    ⟨fun a b => Bool.or_eq_true_iff.mp (isLE_total a b)⟩
  have htrans : IsTrans α fun a b => (cmp a b).isLE = true :=
    ⟨fun _ _ _ => Std.TransCmp.isLE_trans⟩
  refine eq_of_filter_eq cmp (pairwise_mergeSort_isLE cmp xs) (List.pairwise_insertionSort _ xs)
    fun a => ?_
  rw [filter_mergeSort_isLE]
  exact (filter_eq_of_sublist xs (List.perm_insertionSort _ xs) (List.sublist_insertionSort
    (pairwise_filter_tied cmp xs a) List.filter_sublist)).symm

end Sorting

/-! ## Text -/

namespace Text

instance : Std.TransCmp compare :=
  inferInstanceAs (Std.TransCmp (compareOn fun s : String => s.toByteArray.data.toList))

theorem compare_eq_eq_iff {a b : String} : compare a b = .eq ↔ a = b := by
  constructor
  · intro h
    have hbytes : a.toByteArray.data.toList = b.toByteArray.data.toList :=
      Std.LawfulEqCmp.eq_of_compare h
    exact String.toByteArray_inj.mp (ByteArray.ext (Array.toList_inj.mp hbytes))
  · rintro rfl
    exact Std.ReflCmp.compare_self

theorem compare_bytes_eq_lt_iff {xs ys : List UInt8} : Ord.compare xs ys = .lt ↔ xs < ys := by
  induction xs generalizing ys with
  | nil => cases ys <;> simp
  | cons x xs ih =>
    cases ys with
    | nil => simp
    | cons y ys =>
      rw [List.compare_cons_cons, Ordering.then_eq_lt, ih, List.cons_lt_cons_iff, Std.compare_eq_lt,
        Std.compare_eq_iff_eq]

theorem isLE_compare_iff {a b : String} : (compare a b).isLE = true ↔
    a.toByteArray.data.toList ≤ b.toByteArray.data.toList := by
  have hswap : compare b a = (compare a b).swap := Std.OrientedCmp.eq_swap
  rw [← List.not_lt, ← compare_bytes_eq_lt_iff]
  change _ ↔ ¬ compare b a = .lt
  rw [hswap]
  cases compare a b <;> decide

end Text

end Columnar
