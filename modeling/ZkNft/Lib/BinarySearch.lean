import Mathlib.Data.List.Basic
import Mathlib.Tactic.Common

/-! Binary search in a list and insertion at the place it reports. -/

namespace BinarySearch
variable {α : Type*} {f : α → Ordering} {l : List α} {x : α} {i : ℕ}

/-- The entries that `f` puts before the target come first, those behind it last. -/
def Ordered (f : α → Ordering) (l : List α) : Prop :=
  l.Pairwise fun x y => (f y = .lt → f x = .lt) ∧ (f x = .gt → f y = .gt)

/-- What a search may report: a place where the target is, or one where it can be inserted. -/
def Reports (f : α → Ordering) (l : List α) : Except ℕ ℕ → Prop
  | .ok i => ∃ x, l[i]? = some x ∧ f x = .eq
  | .error i => i ≤ l.length ∧ (∀ x ∈ l.take i, f x = .lt) ∧ ∀ x ∈ l.drop i, f x = .gt

/-- The search between `left` and `right`, halving the range `fuel` times at most. -/
def search (f : α → Ordering) (l : List α) : (fuel left right : ℕ) → Except ℕ ℕ
  | 0, left, _ => .error left
  | fuel + 1, left, right =>
    if left < right then
      let mid := left + (right - left) / 2
      match l[mid]?.map f with
      | some .lt => search f l fuel (mid + 1) right
      | some .gt => search f l fuel left mid
      | some .eq => .ok mid
      | none => .error left
    else .error left

/-- `binary_search_by`. -/
def binarySearchBy (f : α → Ordering) (l : List α) : Except ℕ ℕ := search f l l.length 0 l.length

/-- Of any list, a place is reported within it. -/
theorem search_error_le : ∀ {fuel left right : ℕ}, left ≤ right → right ≤ l.length →
    search f l fuel left right = .error i → i ≤ l.length := by
  intro fuel
  induction fuel with
  | zero =>
    intro left right hle hlen h
    cases h
    exact Nat.le_trans hle hlen
  | succ fuel ih =>
    intro left right hle hlen h
    have hin : left ≤ l.length := Nat.le_trans hle hlen
    unfold search at h
    split_ifs at h with hlt
    · simp only at h
      split at h
      · exact ih (by omega) hlen h
      · exact ih (by omega) (by omega) h
      · cases h
      · cases h
        exact hin
    · cases h
      exact hin

theorem binarySearchBy_error_le (h : binarySearchBy f l = .error i) : i ≤ l.length :=
  search_error_le (Nat.zero_le _) (Nat.le_refl _) h

theorem Ordered.take_lt (h : Ordered f l) (hx : l[i]? = some x) (hlt : f x = .lt) :
    ∀ y ∈ l.take (i + 1), f y = .lt := by
  intro y hy
  obtain ⟨j, hj, rfl⟩ := List.mem_take_iff_getElem.mp hy
  obtain ⟨hi, rfl⟩ := List.getElem?_eq_some_iff.mp hx
  rcases Nat.lt_or_ge j i with hji | hij
  · exact (List.pairwise_iff_getElem.mp h j i (by omega) hi hji).1 hlt
  · have heq : j = i := by omega
    subst heq
    exact hlt

theorem Ordered.drop_gt (h : Ordered f l) (hx : l[i]? = some x) (hgt : f x = .gt) :
    ∀ y ∈ l.drop i, f y = .gt := by
  intro y hy
  obtain ⟨j, hj, rfl⟩ := List.mem_drop_iff_getElem.mp hy
  obtain ⟨hi, rfl⟩ := List.getElem?_eq_some_iff.mp hx
  rcases Nat.eq_zero_or_pos j with rfl | hpos
  · simpa using hgt
  · exact (List.pairwise_iff_getElem.mp h i (i + j) hi (by omega) (by omega)).2 hgt

/-- The search keeps smaller entries on its left and greater ones on its right. -/
theorem search_reports (h : Ordered f l) : ∀ {fuel left right : ℕ}, right - left ≤ fuel →
    left ≤ right → right ≤ l.length → (∀ x ∈ l.take left, f x = .lt) →
    (∀ x ∈ l.drop right, f x = .gt) → Reports f l (search f l fuel left right) := by
  intro fuel
  induction fuel with
  | zero =>
    intro left right hfuel hle hlen hbefore hafter
    have heq : right = left := by omega
    subst heq
    exact ⟨hlen, hbefore, hafter⟩
  | succ fuel ih =>
    intro left right hfuel hle hlen hbefore hafter
    unfold search
    split_ifs with hlt
    swap
    · have heq : right = left := by omega
      subst heq
      exact ⟨hlen, hbefore, hafter⟩
    have hmid : left + (right - left) / 2 < right := by omega
    have hin : left + (right - left) / 2 < l.length := by omega
    have hget : l[left + (right - left) / 2]? = some l[left + (right - left) / 2] :=
      List.getElem?_eq_getElem hin
    simp only [hget, Option.map_some]
    cases hf : f l[left + (right - left) / 2] with
    | lt => exact ih (by omega) (by omega) hlen (h.take_lt hget hf) hafter
    | eq => exact ⟨_, hget, hf⟩
    | gt => exact ih (by omega) (by omega) (by omega) hbefore (h.drop_gt hget hf)

theorem binarySearchBy_reports (h : Ordered f l) : Reports f l (binarySearchBy f l) := by
  apply search_reports h
  · omega
  · omega
  · exact Nat.le_refl _
  · simp
  · simp

theorem insertIdx_eq (hi : i ≤ l.length) : l.insertIdx i x = l.take i ++ x :: l.drop i := by
  induction l generalizing i with
  | nil =>
    obtain rfl : i = 0 := by simpa using hi
    rfl
  | cons y l ih =>
    cases i with
    | zero => rfl
    | succ i =>
      rw [List.insertIdx_succ_cons, ih (by simpa using hi)]
      rfl

/-- Insertion keeps a list in order if the new entry fits between its neighbours. -/
theorem pairwise_insertIdx {r : α → α → Prop} (h : l.Pairwise r) (hi : i ≤ l.length)
    (hbefore : ∀ y ∈ l.take i, r y x) (hafter : ∀ y ∈ l.drop i, r x y) :
    (l.insertIdx i x).Pairwise r := by
  rw [insertIdx_eq hi]
  have hsplit := h
  rw [← List.take_append_drop i l, List.pairwise_append] at hsplit
  obtain ⟨htake, hdrop, hcross⟩ := hsplit
  rw [List.pairwise_append]
  refine ⟨htake, List.pairwise_cons.mpr ⟨hafter, hdrop⟩, ?_⟩
  intro y hy z hz
  rcases List.mem_cons.mp hz with rfl | hz
  · exact hbefore y hy
  · exact hcross y hy z hz

end BinarySearch
