import Mathlib.Data.List.Sort
import Columnar.Proofs.Candidates

/-! # Candidates as a set of rows

A client narrows a set of candidates by predicates, which may keep a state between their calls, and
by ascending lists of rows. Whatever it asks for and in which order, the set holds the rows of its
range that every request kept, and a predicate is called on the rows that were left just before.
-/

namespace Columnar.Candidates

/-- What a client with a state of type `σ` asks of a set of candidates. -/
inductive Request (σ : Type) where
  | filter (p : Nat → StateM σ Bool)
  | intersect (rows : List Nat) (ascending : rows.Pairwise (· < ·))

/-- What a request turned out to be: the calls of its predicate with their answers, or its rows. -/
inductive Served where
  | filtered (answers : List (Nat × Bool))
  | intersected (rows : List Nat)

/-- Whether the predicate answered yes on a row, or the list has it. -/
def Served.keeps : Served → Nat → Bool
  | filtered answers, row => answers.contains (row, true)
  | intersected rows, row => rows.contains row

/-- A predicate with a record of its calls and their answers. -/
def observe {σ : Type} (p : Nat → StateM σ Bool) (row : Nat) :
    StateM (σ × List (Nat × Bool)) Bool := fun (state, answers) =>
  let (keep, state) := p row state
  (keep, state, answers ++ [(row, keep)])

def serve {σ : Type} (c : Candidates) : Request σ → StateM σ (Candidates × Served)
  | .filter p => fun state =>
    let (kept, state, answers) := c.filterM (observe p) (state, [])
    ((kept, .filtered answers), state)
  | .intersect rows _ => return (c.intersect rows, .intersected rows)

/-- A request that was served, with the candidates just before it. -/
structure Step (σ : Type) where
  request : Request σ
  before : Candidates
  served : Served

/-- Serves one request after another. -/
def serveAll {σ : Type} (c : Candidates) :
    List (Request σ) → StateM σ (Candidates × List (Step σ))
  | [] => return (c, [])
  | request :: requests => do
    let (kept, served) ← c.serve request
    let (last, steps) ← kept.serveAll requests
    return (last, ⟨request, c, served⟩ :: steps)

/--
Whether a filter called its predicate on each candidate once, in order, and on no other row, and an
intersection took the rows it was given.
-/
def Step.Orderly {σ : Type} : Step σ → Prop
  | ⟨.filter _, before, .filtered answers⟩ => answers.map Prod.fst = before.toList
  | ⟨.intersect rows _, _, .intersected taken⟩ => taken = rows
  | _ => False

/-- The rows that a set lists ascend within its range. -/
structure Proper (c : Candidates) : Prop where
  ascending : c.toList.Pairwise (· < ·)
  inRange : ∀ row ∈ c.toList, c.inRange row = true

variable {c : Candidates} {row : Nat}

/-! ## Views of one set -/

theorem proper_ofRange (start stop : Nat) : (ofRange start stop).Proper where
  ascending := by
    rw [toList_ofRange]
    exact List.pairwise_lt_range'
  inRange row h := by
    rw [toList_ofRange, List.mem_range'_1] at h
    exact inRange_iff.mpr (by simp only [ofRange]; omega)

theorem mem_range_iff : row ∈ c.range ↔ c.inRange row = true := by
  have hle := c.start_le_stop
  rw [range, List.mem_range'_1, inRange_iff]
  omega

theorem inRange_of_contains (h : c.contains row = true) : c.inRange row = true := by
  unfold contains at h
  split at h
  · exact h
  · split at h
    · exact inRange_iff.mpr ‹_›
    · cases h
  · exact (Bool.and_eq_true_iff.mp h).1

/-- In every form, a set contains the rows of its list that lie in its range. -/
theorem contains_iff_inRange_and_mem :
    c.contains row = true ↔ c.inRange row = true ∧ row ∈ c.toList := by
  by_cases hform : ∃ rows, c.form = .listed rows
  · obtain ⟨rows, hform⟩ := hform
    simp only [toList, contains, hform, Bool.and_eq_true, List.contains_iff_mem]
  · rw [← range_filter_contains (not_exists.mp hform), List.mem_filter, mem_range_iff]
    constructor
    · exact fun h => ⟨inRange_of_contains h, inRange_of_contains h, h⟩
    · exact fun h => h.2.2

theorem contains_iff_mem (h : ∀ row ∈ c.toList, c.inRange row = true) :
    c.contains row = true ↔ row ∈ c.toList := by
  rw [contains_iff_inRange_and_mem]
  exact and_iff_right_of_imp (h row)

theorem Proper.contains_iff (h : c.Proper) : c.contains row = true ↔ row ∈ c.toList :=
  contains_iff_mem h.inRange

/-! ## Intersection -/

theorem mem_dropWhile_iff {existing : List Nat} {first : Nat} (hrow : first ≤ row) :
    row ∈ existing.dropWhile (fun r => decide (r < first)) ↔ row ∈ existing := by
  induction existing with
  | nil => rfl
  | cons r existing ih =>
    rw [List.dropWhile_cons]
    split
    · rename_i hlt
      rw [ih, List.mem_cons]
      have := of_decide_eq_true hlt
      exact (or_iff_right (by omega)).symm
    · rfl

theorem head?_dropWhile_eq_some_iff {existing : List Nat} {first : Nat}
    (h : existing.Pairwise (· ≤ ·)) :
    (existing.dropWhile fun r => decide (r < first)).head? = some first ↔ first ∈ existing := by
  rw [← mem_dropWhile_iff (Nat.le_refl first)]
  constructor
  · exact List.mem_of_mem_head?
  · intro hmem
    have hsorted := h.sublist (List.dropWhile_sublist fun r => decide (r < first))
    have hhead := List.head?_dropWhile_not (fun r => decide (r < first)) existing
    cases hrest : existing.dropWhile fun r => decide (r < first) with
    | nil =>
      rw [hrest] at hmem
      cases hmem
    | cons r rest =>
      rw [hrest] at hmem hsorted hhead
      have hge : ¬ r < first := by simpa using hhead
      rcases List.mem_cons.mp hmem with rfl | hmem
      · rfl
      · have hle : r ≤ first := List.rel_of_pairwise_cons hsorted hmem
        rw [List.head?_cons, Nat.le_antisymm hle (Nat.not_lt.mp hge)]

/-- One pass over two ascending lists finds the elements of the second that the first one holds. -/
theorem common_eq_filter {existing rows : List Nat} (he : existing.Pairwise (· ≤ ·))
    (hr : rows.Pairwise (· ≤ ·)) : common existing rows = rows.filter (existing.contains ·) := by
  induction rows generalizing existing with
  | nil => rfl
  | cons first rows ih =>
    have ih := ih (he.sublist (List.dropWhile_sublist fun r => decide (r < first))) hr.tail
    -- Rows dropped before the first given row lie below all given rows.
    have hrest : rows.filter ((existing.dropWhile fun r => decide (r < first)).contains ·) =
        rows.filter (existing.contains ·) := by
      refine List.filter_congr fun row hrow => ?_
      rw [Bool.eq_iff_iff, List.contains_iff_mem, List.contains_iff_mem]
      exact mem_dropWhile_iff (List.rel_of_pairwise_cons hr hrow)
    simp only [common, head?_dropWhile_eq_some_iff he, ih, hrest, List.filter_cons,
      List.contains_iff_mem]

/-- Of the given rows intersection keeps the candidates, each as often as it is given. -/
theorem toList_intersect (hc : c.toList.Pairwise (· ≤ ·))
    (hin : ∀ row ∈ c.toList, c.inRange row = true) {rows : List Nat} (hr : rows.Pairwise (· ≤ ·)) :
    (c.intersect rows).toList = rows.filter c.contains := by
  have hrange : (rows.filter c.inRange).filter c.contains = rows.filter c.contains := by
    rw [List.filter_filter]
    refine List.filter_congr fun row _ => ?_
    rw [Bool.eq_iff_iff, Bool.and_eq_true]
    exact and_iff_left_of_imp inRange_of_contains
  rw [← hrange]
  have hcontains (row : Nat) : c.contains row = true ↔ row ∈ c.toList := contains_iff_mem hin
  obtain ⟨start, stop, hle, form⟩ := c
  cases form with
  | all =>
    refine (List.filter_eq_self.mpr fun row hrow => ?_).symm
    exact (List.mem_filter.mp hrow).2
  | flags flags => rfl
  | listed existing =>
    refine (common_eq_filter hc (hr.filter _)).trans (List.filter_congr fun row _ => ?_)
    rw [Bool.eq_iff_iff, List.contains_iff_mem, hcontains]

theorem Proper.toList_intersect (h : c.Proper) {rows : List Nat} (hr : rows.Pairwise (· < ·)) :
    (c.intersect rows).toList = c.toList.filter (rows.contains ·) := by
  rw [Candidates.toList_intersect (h.ascending.imp Nat.le_of_lt) h.inRange (hr.imp Nat.le_of_lt)]
  refine (hr.filter _).eq_of_mem_iff (h.ascending.filter _) fun row => ?_
  rw [List.mem_filter, List.mem_filter, List.contains_iff_mem, h.contains_iff]
  exact and_comm

theorem Proper.of_toList_eq {d : Candidates} (h : c.Proper) {p : Nat → Bool}
    (hrange : d.inRange = c.inRange) (hd : d.toList = c.toList.filter p) : d.Proper where
  ascending := by
    rw [hd]
    exact h.ascending.filter p
  inRange row hrow := by
    rw [hd] at hrow
    rw [hrange]
    exact h.inRange row (List.mem_of_mem_filter hrow)

/-! ## Filters -/

section Stateful

variable {σ : Type} {p : Nat → StateM σ Bool}

/-- The rows on which a predicate answered yes. -/
def kept (answers : List (Nat × Bool)) : List Nat := (answers.filter Prod.snd).map Prod.fst

theorem keepM_observe (rows : List Nat) (state : σ) (earlier : List (Nat × Bool)) :
    ∃ answers state', keepM (observe p) rows (state, earlier) =
        (kept answers, state', earlier ++ answers) ∧ answers.map Prod.fst = rows := by
  induction rows generalizing state earlier with
  | nil =>
    refine ⟨[], state, ?_, rfl⟩
    rw [List.append_nil]
    rfl
  | cons row rows ih =>
    cases hp : p row state with
    | mk keep next =>
      obtain ⟨answers, state', heq, hfst⟩ := ih next (earlier ++ [(row, keep)])
      refine ⟨(row, keep) :: answers, state', ?_, by rw [List.map_cons, hfst]⟩
      simp only [keepM, bind, StateT.bind, observe, hp, heq, List.append_assoc]
      cases keep <;> rfl

theorem kept_eq_filter {answers : List (Nat × Bool)} (h : (answers.map Prod.fst).Nodup) :
    kept answers = (answers.map Prod.fst).filter fun row => answers.contains (row, true) := by
  rw [kept, List.filter_map]
  refine congrArg _ (List.filter_congr fun answer hmem => ?_)
  obtain ⟨row, keep⟩ := answer
  rw [Function.comp_apply, Bool.eq_iff_iff, List.contains_iff_mem]
  constructor
  · rintro rfl
    exact hmem
  · intro hyes
    have heq := List.inj_on_of_nodup_map h hmem hyes rfl
    exact congrArg Prod.snd heq

theorem inRange_filterM (state : σ) : (c.filterM p state).1.inRange = c.inRange := by
  obtain ⟨start, stop, hle, form⟩ := c
  cases form <;> rfl

theorem inRange_filterDefined (p : Nat → Option Bool) :
    (c.filterDefined p).1.inRange = c.inRange := by
  obtain ⟨start, stop, hle, form⟩ := c
  cases form with
  | all =>
    simp only [filterDefined]
    split <;> rfl
  | flags => rfl
  | listed => rfl

/-- A filter under observation calls its predicate once on each candidate, in order. -/
theorem filterM_observe (c : Candidates) (state : σ) :
    ∃ left answers state', c.filterM (observe p) (state, []) = (left, state', answers) ∧
      left.inRange = c.inRange ∧ left.toList = kept answers ∧
      answers.map Prod.fst = c.toList := by
  obtain ⟨answers, state', heq, hfst⟩ := keepM_observe (p := p) c.toList state []
  have hrun : ((c.filterM (observe p) (state, [])).1.toList,
      (c.filterM (observe p) (state, [])).2) = (kept answers, state', answers) :=
    (congrFun (toList_filterM (observe p) c) (state, [])).trans heq
  obtain ⟨hleft, hrecorded⟩ := Prod.mk.inj hrun
  exact ⟨_, answers, state', Prod.ext rfl hrecorded, inRange_filterM _, hleft, hfst⟩

/-! ## Requests -/

theorem Proper.serve (h : c.Proper) (request : Request σ) (state : σ) :
    ∃ kept served state', c.serve request state = ((kept, served), state') ∧ kept.Proper ∧
      kept.toList = c.toList.filter served.keeps ∧ Step.Orderly ⟨request, c, served⟩ := by
  cases request with
  | intersect rows hrows =>
    have hlist := h.toList_intersect hrows
    exact ⟨_, _, state, rfl, h.of_toList_eq rfl hlist, hlist, rfl⟩
  | filter p =>
    obtain ⟨left, answers, state', hfilter, hin, hleft, hfst⟩ := filterM_observe (p := p) c state
    have hnodup : (answers.map Prod.fst).Nodup := by
      rw [hfst]
      exact h.ascending.imp Nat.ne_of_lt
    have hlist : left.toList = c.toList.filter (Served.filtered answers).keeps := by
      rw [hleft, kept_eq_filter hnodup, hfst]
      rfl
    refine ⟨left, .filtered answers, state', ?_, h.of_toList_eq hin hlist, hlist, hfst⟩
    simp only [Candidates.serve, hfilter]

theorem Proper.serveAll (h : c.Proper) (requests : List (Request σ)) (state : σ) :
    ∃ last steps state', c.serveAll requests state = ((last, steps), state') ∧ last.Proper ∧
      last.toList = c.toList.filter (fun row => steps.all (·.served.keeps row)) ∧
      steps.map Step.request = requests ∧ ∀ step ∈ steps, step.Orderly := by
  induction requests generalizing c state with
  | nil => exact ⟨c, [], state, rfl, h, by simp, rfl, by simp⟩
  | cons request requests ih =>
    obtain ⟨kept, served, next, hserve, hkept, hlist, horderly⟩ := h.serve request state
    obtain ⟨last, steps, state', hrest, hlast, hlist', hrequests, horderly'⟩ := ih hkept next
    refine ⟨last, ⟨request, c, served⟩ :: steps, state', ?_, hlast, ?_, ?_, ?_⟩
    · simp only [Candidates.serveAll, bind, StateT.bind, hserve, hrest]
      rfl
    · rw [hlist', hlist, List.filter_filter]
      simp only [List.all_cons, Bool.and_comm]
    · rw [List.map_cons, hrequests]
    · rintro step (_ | ⟨_, hstep⟩)
      · exact horderly
      · exact horderly' step hstep

/--
After any requests a set holds the rows of its range that all of them kept, in ascending order, and
answers by them. Each filter called its predicate on the rows that were candidates just before it.
-/
theorem serveAll_ofRange (start stop : Nat) (requests : List (Request σ)) (state : σ) :
    ∃ last steps state', (ofRange start stop).serveAll requests state = ((last, steps), state') ∧
      steps.map Step.request = requests ∧ (∀ step ∈ steps, step.Orderly) ∧
      last.toList = (List.range' start (max stop start - start)).filter
        (fun row => steps.all (·.served.keeps row)) ∧
      (∀ row, last.contains row = true ↔ row ∈ last.toList) ∧
      last.count = last.toList.length ∧ (last.isEmpty = true ↔ last.toList = []) := by
  obtain ⟨last, steps, state', hrun, hlast, hlist, hrequests, horderly⟩ :=
    (proper_ofRange start stop).serveAll requests state
  refine ⟨last, steps, state', hrun, hrequests, horderly, hlist, fun _ => hlast.contains_iff,
    last.count_eq_length, ?_⟩
  rw [isEmpty, beq_iff_eq, count_eq_length, List.length_eq_zero_iff]

end Stateful

end Columnar.Candidates
