import Mathlib.Data.List.Sort

/-! Keyed lists: stable sorting by key, and runs of equal keys. -/

namespace KeyedFold

variable {α K V : Type*}

section Sorting
variable [LinearOrder K] {key : α → K}

/-- A stable sort keeps the order of the elements of one key. -/
theorem filter_insertionSort (k : K) (l : List α) :
    (l.insertionSort (key · ≤ key ·)).filter (fun a => key a = k) =
      l.filter (fun a => key a = k) := by
  have hsub : (l.filter (fun a => key a = k)).Sublist (l.insertionSort (key · ≤ key ·)) := by
    apply List.sublist_insertionSort _ List.filter_sublist
    apply List.pairwise_of_forall_mem_list
    intro a ha b hb
    rw [of_decide_eq_true (List.mem_filter.mp ha).2, of_decide_eq_true (List.mem_filter.mp hb).2]
  have hf := hsub.filter (fun a => key a = k)
  simp only [List.filter_filter, Bool.and_self] at hf
  exact (hf.eq_of_length
    ((List.perm_insertionSort _ l).filter _).length_eq.symm).symm

end Sorting

section Runs
variable [DecidableEq K]

/-- Extend the last run if it has the same key, else open a new one. -/
def pushRun (acc : List (K × List V)) (x : K × V) : List (K × List V) :=
  match acc.getLast? with
  | some (k, vs) => if x.1 = k then acc.dropLast ++ [(k, vs ++ [x.2])] else acc ++ [(x.1, [x.2])]
  | none => acc ++ [(x.1, [x.2])]

def runs (xs : List (K × V)) : List (K × List V) := xs.foldl pushRun []

/-- The pairs of the runs, in order. -/
def spread (gs : List (K × List V)) : List (K × V) := gs.flatMap fun g => g.2.map (Prod.mk g.1)

omit [DecidableEq K] in
@[simp] theorem spread_append (gs hs : List (K × List V)) :
    spread (gs ++ hs) = spread gs ++ spread hs := by simp [spread]

theorem spread_pushRun (acc : List (K × List V)) (x : K × V) :
    spread (pushRun acc x) = spread acc ++ [x] := by
  unfold pushRun
  split
  next k vs h =>
    obtain ⟨init, rfl⟩ := List.getLast?_eq_some_iff.mp h
    split_ifs with hk
    · subst hk
      simp [spread]
    · simp [spread]
  next => simp [spread]

/-- The runs hold the list's pairs in the list's order. -/
theorem spread_runs (xs : List (K × V)) : spread (runs xs) = xs := by
  have h (acc : List (K × List V)) : spread (xs.foldl pushRun acc) = spread acc ++ xs := by
    induction xs generalizing acc with
    | nil => simp
    | cons x xs ih =>
      rw [List.foldl_cons, ih, spread_pushRun, List.append_assoc, List.singleton_append]
  exact h []

theorem pushRun_ne_nil {acc : List (K × List V)} (h : ∀ g ∈ acc, g.2 ≠ []) (x : K × V) :
    ∀ g ∈ pushRun acc x, g.2 ≠ [] := by
  unfold pushRun
  split
  next k vs hl =>
    split_ifs with hk <;> intro g hg <;> rcases List.mem_append.mp hg with hg | hg
    · exact h g (List.dropLast_subset _ hg)
    · simp_all
    · exact h g hg
    · simp_all
  next =>
    intro g hg
    rcases List.mem_append.mp hg with hg | hg
    · exact h g hg
    · simp_all

theorem runs_ne_nil (xs : List (K × V)) : ∀ g ∈ runs xs, g.2 ≠ [] := by
  have h (acc : List (K × List V)) (ha : ∀ g ∈ acc, g.2 ≠ []) :
      ∀ g ∈ xs.foldl pushRun acc, g.2 ≠ [] := by
    induction xs generalizing acc with
    | nil => exact ha
    | cons x xs ih => exact ih _ (pushRun_ne_nil ha x)
  exact h [] (by simp)

end Runs

section SortedRuns
variable [LinearOrder K]

theorem pushRun_sorted {acc : List (K × List V)} (h : acc.Pairwise (·.1 < ·.1)) (x : K × V)
    (hx : ∀ g ∈ acc, g.1 ≤ x.1) :
    (pushRun acc x).Pairwise (·.1 < ·.1) ∧ ∀ g ∈ pushRun acc x, g.1 ≤ x.1 := by
  unfold pushRun
  split
  next k vs hl =>
    obtain ⟨init, rfl⟩ := List.getLast?_eq_some_iff.mp hl
    rw [List.pairwise_append] at h
    split_ifs with hk
    · rw [List.dropLast_concat, List.pairwise_append]
      refine ⟨⟨h.1, by simp, ?_⟩, ?_⟩
      · intro a ha b hb
        rw [List.mem_singleton.mp hb]
        exact h.2.2 a ha (k, vs) (by simp)
      · intro g hg
        rcases List.mem_append.mp hg with hg | hg
        · exact hx g (List.mem_append_left _ hg)
        · rw [List.mem_singleton.mp hg]
          exact hk.ge
    · have hlt : k < x.1 := lt_of_le_of_ne (hx (k, vs) (by simp)) (Ne.symm hk)
      rw [List.pairwise_append]
      refine ⟨⟨List.pairwise_append.mpr h, by simp, ?_⟩, ?_⟩
      · intro a ha b hb
        rw [List.mem_singleton.mp hb]
        rcases List.mem_append.mp ha with ha | ha
        · exact (h.2.2 a ha (k, vs) (by simp)).trans hlt
        · rw [List.mem_singleton.mp ha]
          exact hlt
      · intro g hg
        rcases List.mem_append.mp hg with hg | hg
        · exact hx g hg
        · rw [List.mem_singleton.mp hg]
  next hl =>
    rw [List.getLast?_eq_none_iff] at hl
    simp [hl]

/-- The runs of a sorted list have strictly increasing keys. -/
theorem runs_sorted {xs : List (K × V)} (h : xs.Pairwise (·.1 ≤ ·.1)) :
    (runs xs).Pairwise (·.1 < ·.1) := by
  have hf (acc : List (K × List V)) (ha : acc.Pairwise (·.1 < ·.1))
      (hx : ∀ g ∈ acc, ∀ x ∈ xs, g.1 ≤ x.1) : (xs.foldl pushRun acc).Pairwise (·.1 < ·.1) := by
    induction xs generalizing acc with
    | nil => exact ha
    | cons x xs ih =>
      have hp := pushRun_sorted ha x fun g hg => hx g hg x (by simp)
      rw [List.pairwise_cons] at h
      exact ih h.2 _ hp.1 fun g hg y hy => (hp.2 g hg).trans (h.1 y hy)
  exact hf [] .nil (by simp)

end SortedRuns

end KeyedFold
