import Mathlib.Algebra.Order.BigOperators.Group.List
import Mathlib.Algebra.Order.Group.Nat
import ZkNft.Lib.Exchange
import ZkNft.Staking.Calls

/-! What the operations on lists of delegations do to their entries. -/

namespace ZkNft
namespace Staking
open BinarySearch Keyed

variable {A : Type} {l : List (Bond A)} {x : Bond A}

/-- The sum of the amounts. -/
def amounts (l : List (Bond A)) : ℕ := (l.map Bond.amount).sum

/-- No account has two entries. -/
abbrev OneEach (l : List (Bond A)) : Prop := Distinct Bond.owner l

/-- From greatest to least. -/
def Descending (l : List (Bond A)) : Prop := l.Pairwise fun x y => y.amount ≤ x.amount

theorem amounts_perm {l' : List (Bond A)} (h : l.Perm l') : amounts l = amounts l' :=
  (h.map Bond.amount).sum_eq

@[simp] theorem amounts_nil : amounts ([] : List (Bond A)) = 0 := rfl

@[simp] theorem amounts_cons : amounts (x :: l) = x.amount + amounts l := by simp [amounts]

@[simp] theorem amounts_append (l l' : List (Bond A)) :
    amounts (l ++ l') = amounts l + amounts l' := by simp [amounts]

theorem amount_le_amounts (h : x ∈ l) : x.amount ≤ amounts l :=
  List.single_le_sum (by simp) _ (List.mem_map_of_mem h)

theorem satAdd_eq {a b : ℕ} (h : a + b ≤ maxBalance) : satAdd a b = a + b := Nat.min_eq_left h

section Descending

theorem Descending.last_le (h : Descending l) {y : Bond A} (hlast : l.getLast? = some y)
    (hx : x ∈ l) : y.amount ≤ x.amount := by
  obtain ⟨init, rfl⟩ := List.getLast?_eq_some_iff.mp hlast
  rcases List.mem_append.mp hx with hx | hx
  · exact (List.pairwise_append.mp h).2.2 x hx y (List.mem_singleton_self y)
  · rw [List.mem_singleton.mp hx]

theorem Descending.le_head (h : Descending l) {y : Bond A} (hhead : l.head? = some y)
    (hx : x ∈ l) : x.amount ≤ y.amount := by
  obtain ⟨tail, rfl⟩ := List.head?_eq_some_iff.mp hhead
  rcases List.mem_cons.mp hx with rfl | hx
  · exact Nat.le_refl _
  · exact List.rel_of_pairwise_cons h hx

/-- The search for the place of an amount runs over a list in its order. -/
theorem Descending.ordered (h : Descending l) (amount : ℕ) :
    Ordered (fun x : Bond A => compare amount x.amount) l := by
  apply h.imp
  intro x y hxy
  simp only [compare_lt_iff_lt, compare_gt_iff_gt]
  omega

theorem afterEqual_spec (amount i : ℕ) (h : Descending l) (hle : ∀ x ∈ l, x.amount ≤ amount) :
    ∃ j, afterEqual amount i l = i + j ∧ j ≤ l.length ∧ (∀ x ∈ l.take j, x.amount = amount) ∧
      ∀ x ∈ l.drop j, x.amount < amount := by
  induction l generalizing i with
  | nil => exact ⟨0, rfl, Nat.le_refl _, by simp, by simp⟩
  | cons y l ih =>
    have ⟨hy, hl⟩ := List.pairwise_cons.mp h
    have ⟨hyle, hlle⟩ := List.forall_mem_cons.mp hle
    by_cases heq : y.amount = amount
    · obtain ⟨j, hj, hlen, htake, hdrop⟩ := ih (i + 1) hl hlle
      refine ⟨j + 1, ?_, by simpa using hlen, ?_, hdrop⟩
      · rw [afterEqual, if_pos heq, hj]
        omega
      · simpa [heq] using htake
    · refine ⟨0, by rw [afterEqual, if_neg heq, Nat.add_zero], Nat.zero_le _, by simp, ?_⟩
      intro z hz
      rcases List.mem_cons.mp hz with rfl | hz
      · omega
      · have hzy := hy z hz
        omega

/-- Behind an entry and those equal to it come the smaller ones. -/
theorem Descending.afterEqual_splits (h : Descending l) {i : ℕ} {y : Bond A}
    (hy : l[i]? = some y) : ∃ n ≤ l.length,
    afterEqual y.amount (i + 1) (l.drop (i + 1)) = n ∧ (∀ x ∈ l.take n, y.amount ≤ x.amount) ∧
      ∀ x ∈ l.drop n, x.amount < y.amount := by
  obtain ⟨hi, hget⟩ := List.getElem?_eq_some_iff.mp hy
  have hpair := List.pairwise_iff_getElem.mp h
  have hrest : Descending (l.drop (i + 1)) := h.sublist (List.drop_sublist _ _)
  have hle : ∀ x ∈ l.drop (i + 1), x.amount ≤ y.amount := by
    intro x hx
    obtain ⟨k, hk, rfl⟩ := List.mem_drop_iff_getElem.mp hx
    rw [← hget]
    exact hpair i (i + 1 + k) hi (by omega) (by omega)
  obtain ⟨j, hj, hlen, htake, hdrop⟩ := afterEqual_spec y.amount (i + 1) hrest hle
  rw [List.length_drop] at hlen
  refine ⟨i + 1 + j, by omega, hj, ?_, ?_⟩
  · intro x hx
    obtain ⟨k, hk, rfl⟩ := List.mem_take_iff_getElem.mp hx
    rcases Nat.lt_or_ge i k with hik | hki
    · have hmem : l[k] ∈ (l.drop (i + 1)).take j := by
        rw [List.mem_take_iff_getElem]
        refine ⟨k - (i + 1), by simp only [List.length_drop]; omega, ?_⟩
        rw [List.getElem_drop]
        congr 1
        omega
      exact Nat.le_of_eq (htake _ hmem).symm
    · rw [← hget]
      rcases Nat.lt_or_eq_of_le hki with hlt | rfl
      · exact hpair k i (by omega) hi hlt
      · exact Nat.le_refl _
  · intro x hx
    rw [← List.drop_drop] at hx
    exact hdrop x hx

/-- Where the greater amounts end, a list falls apart into the greater and the smaller ones. -/
theorem split_at_index {i : ℕ} {amount : ℕ} (hbefore : ∀ x ∈ l.take i, amount ≤ x.amount)
    (hafter : ∀ x ∈ l.drop i, x.amount < amount) :
    (l.filter fun x => amount ≤ x.amount) = l.take i ∧
      (l.filter fun x => x.amount < amount) = l.drop i := by
  have hsplit := List.take_append_drop i l
  constructor
  · conv_lhs => rw [← hsplit]
    rw [List.filter_append, List.filter_eq_self.mpr (by simpa using hbefore),
      List.filter_eq_nil_iff.mpr (by simpa using hafter), List.append_nil]
  · conv_lhs => rw [← hsplit]
    rw [List.filter_append, List.filter_eq_nil_iff.mpr (by simpa using hbefore),
      List.filter_eq_self.mpr (by simpa using hafter), List.nil_append]

theorem Descending.filter_append (h : Descending l) (amount : ℕ) :
    ((l.filter fun y => amount ≤ y.amount) ++ l.filter fun y => y.amount < amount) = l := by
  induction l with
  | nil => rfl
  | cons y l ih =>
    have ⟨hy, hl⟩ := List.pairwise_cons.mp h
    by_cases hle : amount ≤ y.amount
    · rw [List.filter_cons_of_pos (by simpa using hle),
        List.filter_cons_of_neg (by simpa using hle), List.cons_append, ih hl]
    · have hsmaller : ∀ z ∈ y :: l, z.amount < amount := by
        intro z hz
        rcases List.mem_cons.mp hz with rfl | hz
        · omega
        · have hzy := hy z hz
          omega
      rw [List.filter_eq_nil_iff.mpr (by simpa using hsmaller),
        List.filter_eq_self.mpr (by simpa using hsmaller), List.nil_append]

/-- An entry fits behind those that are not smaller. -/
theorem Descending.insert_between (h : Descending l) :
    Descending ((l.filter fun y => x.amount ≤ y.amount) ++
      x :: l.filter fun y => y.amount < x.amount) := by
  unfold Descending at h ⊢
  rw [List.pairwise_append, List.pairwise_cons]
  refine ⟨h.sublist List.filter_sublist, ⟨?_, h.sublist List.filter_sublist⟩, ?_⟩
  · intro y hy
    have hlt := of_decide_eq_true (List.mem_filter.mp hy).2
    exact Nat.le_of_lt hlt
  · intro y hy z hz
    have hge := of_decide_eq_true (List.mem_filter.mp hy).2
    rcases List.mem_cons.mp hz with rfl | hz
    · exact hge
    · have hlt := of_decide_eq_true (List.mem_filter.mp hz).2
      omega

end Descending

namespace Delegations
variable {self : Delegations A} {found : Except ℕ ℕ}

/-- Whatever the search reports, the new entry comes behind all that are not smaller. -/
theorem insertSortedAt_eq (h : Descending self.delegations)
    (hr : Reports (fun y => compare x.amount y.amount) self.delegations found) :
    (self.insertSortedAt found x).delegations =
      (self.delegations.filter fun y => x.amount ≤ y.amount) ++
        x :: self.delegations.filter fun y => y.amount < x.amount := by
  have hinsert : ∀ i ≤ self.delegations.length,
      (∀ y ∈ self.delegations.take i, x.amount ≤ y.amount) →
      (∀ y ∈ self.delegations.drop i, y.amount < x.amount) →
      self.delegations.insertIdx i x =
        (self.delegations.filter fun y => x.amount ≤ y.amount) ++
          x :: self.delegations.filter fun y => y.amount < x.amount := by
    intro i hi hbefore hafter
    have ⟨hge, hlt⟩ := split_at_index hbefore hafter
    rw [insertIdx_eq hi, hge, hlt]
  unfold insertSortedAt
  simp only
  split_ifs with hlast
  · obtain ⟨y, hy, hamount⟩ := Option.map_eq_some_iff.mp hlast
    have hall : ∀ z ∈ self.delegations, x.amount ≤ z.amount := by
      intro z hz
      rw [← hamount]
      exact h.last_le hy hz
    rw [← hinsert self.delegations.length (Nat.le_refl _) (by simpa using hall) (by simp),
      List.insertIdx_length_self]
  · cases found with
    | error i =>
      obtain ⟨hi, hbefore, hafter⟩ := hr
      apply hinsert i hi
      · intro y hy
        exact Nat.le_of_lt (compare_lt_iff_lt.mp (hbefore y hy))
      · intro y hy
        exact compare_gt_iff_gt.mp (hafter y hy)
    | ok i =>
      obtain ⟨y, hy, heq⟩ := hr
      have hamount : x.amount = y.amount := compare_eq_iff_eq.mp heq
      obtain ⟨n, hlen, hplace, hbefore, hafter⟩ := h.afterEqual_splits hy
      rw [← hamount] at hplace hbefore hafter
      simp only [hplace]
      exact hinsert n hlen hbefore hafter

theorem insertSorted_eq (h : Descending self.delegations) :
    (self.insertSortedGreatestToLeast x).delegations =
      (self.delegations.filter fun y => x.amount ≤ y.amount) ++
        x :: self.delegations.filter fun y => y.amount < x.amount :=
  insertSortedAt_eq h (binarySearchBy_reports (h.ordered x.amount))

theorem insertSortedAt_total :
    (self.insertSortedAt found x).total = satAdd self.total x.amount := by
  unfold insertSortedAt
  simp only
  split_ifs
  · rfl
  · cases found <;> rfl

theorem insertSorted_perm (h : Descending self.delegations) :
    (self.insertSortedGreatestToLeast x).delegations.Perm (x :: self.delegations) := by
  rw [insertSorted_eq h]
  refine List.perm_middle.trans (List.Perm.cons x ?_)
  rw [h.filter_append]

theorem insertSorted_descending (h : Descending self.delegations) :
    Descending (self.insertSortedGreatestToLeast x).delegations := by
  rw [insertSorted_eq h]
  exact h.insert_between

theorem insertSorted_total :
    (self.insertSortedGreatestToLeast x).total = satAdd self.total x.amount := insertSortedAt_total

theorem sort_perm : self.sortGreatestToLeast.delegations.Perm self.delegations :=
  List.perm_insertionSort _ _

theorem sort_descending : Descending self.sortGreatestToLeast.delegations := by
  have htotal : Std.Total fun a b : Bond A => b.amount ≤ a.amount :=
    ⟨fun a b => Nat.le_total _ _⟩
  have htrans : IsTrans (Bond A) fun a b => b.amount ≤ a.amount :=
    ⟨fun a b c hab hbc => Nat.le_trans hbc hab⟩
  exact List.pairwise_insertionSort _ _

/-- Every entry is counted in the total. -/
def Exact (self : Delegations A) : Prop := self.total = amounts self.delegations

theorem Exact.insertSorted (he : self.Exact) (h : Descending self.delegations)
    (hroom : amounts self.delegations + x.amount ≤ maxBalance) :
    (self.insertSortedGreatestToLeast x).Exact := by
  unfold Exact at *
  rw [insertSorted_total, amounts_perm (insertSorted_perm h), amounts_cons, he, satAdd_eq hroom]
  omega

end Delegations

section Owners
variable [LinearOrder A] {a : ℕ} {d : A}

/-- Strictly ordered by owner. -/
def ByOwner (l : List (Bond A)) : Prop := l.Pairwise fun x y => x.owner < y.owner

theorem ByOwner.oneEach (h : ByOwner l) : OneEach l := by
  unfold OneEach Distinct
  apply List.Pairwise.map _ _ h
  intro x y hxy
  exact ne_of_lt hxy

theorem ByOwner.ordered (h : ByOwner l) (owner : A) :
    Ordered (fun x : Bond A => compare x.owner owner) l := by
  apply h.imp
  intro x y hxy
  simp only [compare_lt_iff_lt, compare_gt_iff_gt]
  exact ⟨fun hy => hxy.trans hy, fun hx => lt_trans hx hxy⟩

/-- An insertion that happens keeps what is there, in any list. -/
theorem OrderedSet.insert_perm {l' : List (Bond A)} (hs : OrderedSet.insert l x = some l') :
    l'.Perm (x :: l) := by
  unfold OrderedSet.insert OrderedSet.search at hs
  cases hfound : binarySearchBy (fun y => compare y.owner x.owner) l with
  | ok i =>
    rw [hfound] at hs
    cases hs
  | error i =>
    rw [hfound] at hs
    obtain rfl := Option.some.inj hs
    exact List.perm_insertIdx x l (binarySearchBy_error_le hfound)

/-- An owner that is not found has no entry. -/
theorem OrderedSet.ne_of_search_error (h : ByOwner l) {owner : A} {i : ℕ}
    (hfound : binarySearchBy (fun y => compare y.owner owner) l = .error i) :
    ∀ y ∈ l, y.owner ≠ owner := by
  have hr := binarySearchBy_reports (h.ordered owner)
  rw [hfound] at hr
  obtain ⟨-, hbefore, hafter⟩ := hr
  intro y hy
  rw [← List.take_append_drop i l, List.mem_append] at hy
  rcases hy with hy | hy
  · exact ne_of_lt (compare_lt_iff_lt.mp (hbefore y hy))
  · exact (ne_of_lt (compare_gt_iff_gt.mp (hafter y hy))).symm

/-- An insertion that happens is one of a new owner. -/
theorem OrderedSet.insert_eq_some {l' : List (Bond A)} (h : ByOwner l)
    (hs : OrderedSet.insert l x = some l') :
    l'.Perm (x :: l) ∧ ByOwner l' ∧ ∀ y ∈ l, y.owner ≠ x.owner := by
  have hperm := OrderedSet.insert_perm hs
  have hr := binarySearchBy_reports (h.ordered x.owner)
  unfold OrderedSet.insert OrderedSet.search at hs
  cases hfound : binarySearchBy (fun y => compare y.owner x.owner) l with
  | ok i =>
    rw [hfound] at hs
    cases hs
  | error i =>
    have hnew := OrderedSet.ne_of_search_error h hfound
    rw [hfound] at hs hr
    obtain rfl := Option.some.inj hs
    obtain ⟨hi, hbefore, hafter⟩ := hr
    have hlt : ∀ y ∈ l.take i, y.owner < x.owner :=
      fun y hy => compare_lt_iff_lt.mp (hbefore y hy)
    have hgt : ∀ y ∈ l.drop i, x.owner < y.owner :=
      fun y hy => compare_gt_iff_gt.mp (hafter y hy)
    exact ⟨hperm, pairwise_insertIdx h hi hlt hgt, hnew⟩

/-- A new owner is inserted. -/
theorem OrderedSet.insert_of_new (h : ByOwner l) (hnew : ∀ y ∈ l, y.owner ≠ x.owner) :
    ∃ l', OrderedSet.insert l x = some l' := by
  have hr := binarySearchBy_reports (h.ordered x.owner)
  unfold OrderedSet.insert OrderedSet.search
  cases hfound : binarySearchBy (fun y => compare y.owner x.owner) l with
  | ok i =>
    rw [hfound] at hr
    obtain ⟨y, hy, heq⟩ := hr
    exact absurd (compare_eq_iff_eq.mp heq) (hnew y (List.mem_of_getElem? hy))
  | error i => exact ⟨_, rfl⟩

/-- What is left after an owner is removed. -/
theorem OrderedSet.remove_getD (h : ByOwner l) (owner : A) :
    ByOwner ((OrderedSet.remove l owner).getD l) ∧
      ∀ y, y ∈ (OrderedSet.remove l owner).getD l ↔ y ∈ l ∧ y.owner ≠ owner := by
  have hr := binarySearchBy_reports (h.ordered owner)
  unfold OrderedSet.remove OrderedSet.search
  cases hfound : binarySearchBy (fun y => compare y.owner owner) l with
  | error i =>
    refine ⟨h, ?_⟩
    intro y
    rw [Option.getD_none]
    exact ⟨fun hy => ⟨hy, OrderedSet.ne_of_search_error h hfound y hy⟩, And.left⟩
  | ok i =>
    rw [hfound] at hr
    obtain ⟨x, hx, heq⟩ := hr
    have howner : x.owner = owner := compare_eq_iff_eq.mp heq
    rw [Option.getD_some]
    refine ⟨h.sublist (List.eraseIdx_sublist _ _), ?_⟩
    intro y
    rw [List.mem_eraseIdx_iff_getElem?]
    constructor
    · intro ⟨j, hji, hy⟩
      refine ⟨List.mem_of_getElem? hy, ?_⟩
      intro hyo
      -- two places with one owner are the same
      obtain ⟨hj, rfl⟩ := List.getElem?_eq_some_iff.mp hy
      obtain ⟨hi, rfl⟩ := List.getElem?_eq_some_iff.mp hx
      rcases Nat.lt_or_gt_of_ne hji with hlt | hgt
      · have hne := List.pairwise_iff_getElem.mp h j i hj hi hlt
        exact ne_of_lt hne (hyo.trans howner.symm)
      · have hne := List.pairwise_iff_getElem.mp h i j hi hj hgt
        exact ne_of_lt hne (howner.trans hyo.symm)
    · intro ⟨hy, hyo⟩
      obtain ⟨j, hj⟩ := List.mem_iff_getElem?.mp hy
      refine ⟨j, ?_, hj⟩
      rintro rfl
      rw [hx] at hj
      exact hyo (Option.some.inj hj ▸ howner)

/-- A list in order is a set already. -/
theorem OrderedSet.ofList_eq (h : ByOwner l) : OrderedSet.ofList l = l := by
  unfold OrderedSet.ofList
  have hle : l.Pairwise fun a b => a.owner ≤ b.owner := h.imp fun hxy => le_of_lt hxy
  rw [hle.insertionSort_eq, List.destutter_eq_self_iff]
  exact List.Pairwise.isChain (h.imp fun hxy => ne_of_lt hxy)

section OneOwner
variable (hone : OneEach l)
include hone

theorem find_owner (hx : ⟨d, a⟩ ∈ l) : (l.find? fun b => b.owner = d) = some ⟨d, a⟩ := by
  cases hfind : l.find? fun b => b.owner = d with
  | none =>
    have hnot := List.find?_eq_none.mp hfind ⟨d, a⟩ hx
    simp at hnot
  | some y =>
    have hy : y.owner = d := by simpa using List.find?_some hfind
    rw [hone.eq_of_key (List.mem_of_find?_eq_some hfind) hx hy]

/-- The delegation of an owner is the only one that a filter for it finds. -/
theorem filter_owner (hx : ⟨d, a⟩ ∈ l) : (l.filter fun b => b.owner = d) = [⟨d, a⟩] := by
  have hperm := (hone.perm_cons_filter hx).filter fun b => decide (b.owner = d)
  rw [List.filter_cons_of_pos (by simp), List.filter_filter] at hperm
  have hnil : (l.filter fun y => decide (y.owner = d) && decide (y.owner ≠ d)) = [] := by
    apply List.filter_eq_nil_iff.mpr
    simp
  rw [hnil] at hperm
  exact List.perm_singleton.mp hperm

theorem changeFirst_eq (f : ℕ → ℕ) :
    changeFirst d f l = l.map fun y => if y.owner = d then ⟨y.owner, f y.amount⟩ else y := by
  induction l with
  | nil => rfl
  | cons y l ih =>
    have ⟨hne, hl⟩ := distinct_cons.mp hone
    rw [changeFirst, List.map_cons]
    split_ifs with hy
    · congr 1
      symm
      have hkeep : ∀ z ∈ l, (if z.owner = d then ⟨z.owner, f z.amount⟩ else z) = id z := by
        intro z hz
        exact if_neg (hy ▸ hne z hz)
      rw [List.map_congr_left hkeep, List.map_id]
    · rw [ih hl]

end OneOwner

theorem changeFirst_owners (f : ℕ → ℕ) :
    (changeFirst d f l).map Bond.owner = l.map Bond.owner := by
  induction l with
  | nil => rfl
  | cons y l ih =>
    rw [changeFirst]
    split_ifs
    · rfl
    · rw [List.map_cons, List.map_cons, ih]

theorem ByOwner.changeFirst (h : ByOwner l) (f : ℕ → ℕ) : ByOwner (changeFirst d f l) := by
  unfold ByOwner at *
  rw [← List.pairwise_map (f := Bond.owner) (R := fun a b => a < b)] at h ⊢
  rw [changeFirst_owners]
  exact h

theorem getBondAmount_eq_some {D : Delegator A} (hone : OneEach D.delegations) :
    D.getBondAmount d = some a ↔ ⟨d, a⟩ ∈ D.delegations := by
  unfold Delegator.getBondAmount
  rw [Option.map_eq_some_iff]
  constructor
  · rintro ⟨y, hy, rfl⟩
    have hd : y.owner = d := by simpa using List.find?_some hy
    rw [← hd]
    exact List.mem_of_find?_eq_some hy
  · intro hx
    exact ⟨_, find_owner hone hx, rfl⟩

end Owners
end Staking
end ZkNft
