import Mathlib.Data.List.Sort
import ZkNft.Lib.BinarySearch

/-! The greatest entries of a list by a key, and those of them that reach a threshold. -/

namespace TopN
variable {α κ : Type*} [LinearOrder κ]

/-- The `n` greatest entries, from greatest to least. Equal ones are as the sort leaves them. -/
def greatest (key : α → κ) (n : ℕ) (l : List α) : List α :=
  (l.insertionSort fun a b => key a ≤ key b).reverse.take n

/-- A list falls apart into its `n` greatest entries and the others. -/
structure Splits (key : α → κ) (n : ℕ) (l top rest : List α) : Prop where
  perm : l.Perm (top ++ rest)
  length : top.length = min n l.length
  ge : ∀ x ∈ top, ∀ y ∈ rest, key y ≤ key x

section Descending
variable {key : α → κ} {l : List α}

theorem descending (key : α → κ) (l : List α) :
    (l.insertionSort fun a b => key a ≤ key b).reverse.Pairwise fun x y => key y ≤ key x := by
  have htotal : Std.Total fun a b : α => key a ≤ key b := ⟨fun a b => le_total _ _⟩
  have htrans : IsTrans α fun a b => key a ≤ key b := ⟨fun _ _ _ hab hbc => hab.trans hbc⟩
  rw [List.pairwise_reverse]
  exact List.pairwise_insertionSort _ l

theorem splits_greatest (key : α → κ) (n : ℕ) (l : List α) :
    Splits key n l (greatest key n l)
      ((l.insertionSort fun a b => key a ≤ key b).reverse.drop n) := by
  constructor
  · rw [greatest, List.take_append_drop]
    exact ((List.reverse_perm _).trans (List.perm_insertionSort _ l)).symm
  · rw [greatest, List.length_take, List.length_reverse, List.length_insertionSort]
  · have hpair := descending key l
    rw [← List.take_append_drop n (List.reverse _), List.pairwise_append] at hpair
    exact hpair.2.2

/-- Of a descending list, it does not matter whether the threshold is applied to all entries or to
the first ones. -/
theorem filter_take (h : l.Pairwise fun x y => key y ≤ key x) (m : κ) (n : ℕ) :
    (l.take n).filter (fun x => m ≤ key x) = (l.filter fun x => m ≤ key x).take n := by
  induction l generalizing n with
  | nil => simp
  | cons x l ih =>
    have ⟨hx, hl⟩ := List.pairwise_cons.mp h
    cases n with
    | zero => simp
    | succ n =>
      by_cases hm : m ≤ key x
      · simp [hm, ih hl n]
      · have hnone : l.filter (fun y => m ≤ key y) = [] := by
          rw [List.filter_eq_nil_iff]
          intro y hy hmy
          exact hm ((of_decide_eq_true hmy).trans (hx y hy))
        simp [hm, ih hl n, hnone]

/-- As many entries reach the threshold as can, but not more than `n`. -/
theorem length_filter_greatest (key : α → κ) (n : ℕ) (l : List α) (m : κ) :
    ((greatest key n l).filter fun x => m ≤ key x).length =
      min n (l.filter fun x => m ≤ key x).length := by
  have hperm := (List.reverse_perm _).trans (List.perm_insertionSort (fun a b => key a ≤ key b) l)
  rw [greatest, filter_take (descending key l), List.length_take, (hperm.filter _).length_eq]

end Descending

section Splits
variable {key : α → κ} {n : ℕ} {l top rest : List α}

/-- No entry that is left out exceeds one that is not. -/
theorem Splits.le_of_not_mem (h : Splits key n l top rest) {x y : α} (hx : x ∈ top) (hy : y ∈ l)
    (hnot : y ∉ top) : key y ≤ key x := by
  have hmem := h.perm.mem_iff.mp hy
  cases List.mem_append.mp hmem with
  | inl htop => exact absurd htop hnot
  | inr hrest => exact h.ge x hx y hrest

end Splits
end TopN

namespace BinarySearch
variable {α : Type*} [LinearOrder α] {l : List α}

/-- `binary_search` in a sorted list finds what is there. -/
theorem binarySearchBy_compare (h : l.Pairwise (· ≤ ·)) (a : α) :
    (binarySearchBy (fun x => compare x a) l).isOk = true ↔ a ∈ l := by
  have hordered : Ordered (fun x => compare x a) l := by
    apply h.imp
    intro x y hxy
    simp only [compare_lt_iff_lt, compare_gt_iff_gt]
    exact ⟨hxy.trans_lt, fun hx => hx.trans_le hxy⟩
  have hreports := binarySearchBy_reports hordered
  cases hfound : binarySearchBy (fun x => compare x a) l with
  | ok i =>
    rw [hfound] at hreports
    obtain ⟨x, hx, heq⟩ := hreports
    have hmem := List.mem_of_getElem? hx
    rw [compare_eq_iff_eq.mp heq] at hmem
    exact iff_of_true rfl hmem
  | error i =>
    rw [hfound] at hreports
    obtain ⟨-, hbefore, hafter⟩ := hreports
    apply iff_of_false (by simp [Except.isOk, Except.toBool])
    intro hmem
    rw [← List.take_append_drop i l] at hmem
    cases List.mem_append.mp hmem with
    | inl htake => exact absurd (compare_lt_iff_lt.mp (hbefore a htake)) (lt_irrefl a)
    | inr hdrop => exact absurd (compare_gt_iff_gt.mp (hafter a hdrop)) (lt_irrefl a)

end BinarySearch
