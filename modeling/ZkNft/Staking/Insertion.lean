import ZkNft.Staking.Lists

/-! The insertion into a sorted list of delegations, with every index that it uses. -/

namespace ZkNft
namespace Staking
open BinarySearch

variable {A : Type}

namespace Delegations

/-- `Vec::insert`. -/
def insertAt (self : Delegations A) (i : ℕ) (delegation : Bond A) : Exec Empty (Delegations A) :=
  if i ≤ self.delegations.length then
    .ok { self with delegations := self.delegations.insertIdx i delegation }
  else .trap .index

def push (self : Delegations A) (delegation : Bond A) : Delegations A :=
  { self with delegations := self.delegations ++ [delegation] }

/-- The entry at an index of a `Vec`. -/
def entry (self : Delegations A) (i : ℕ) : Exec Empty (Bond A) :=
  match self.delegations[i]? with
  | some delegation => .ok delegation
  | none => .trap .index

/-- The loop to the end of the entries that are equal to the new one. -/
def insertAfterEqual (self : Delegations A) (delegation : Bond A) (newIndex : ℕ) :
    Exec Empty (Delegations A) :=
  if newIndex ≤ self.delegations.length - 1 then do
    let other ← self.entry newIndex
    if other.amount = delegation.amount then self.insertAfterEqual delegation (newIndex + 1)
    else self.insertAt newIndex delegation
  else .ok (self.push delegation)
termination_by self.delegations.length + 1 - newIndex

/-- Whether the list ends in an entry that is equal to the new one. -/
def endsInEqual (self : Delegations A) (delegation : Bond A) : Exec Empty Bool :=
  if self.delegations.isEmpty then .ok false
  else do
    let last ← self.entry (self.delegations.length - 1)
    .ok (decide (last.amount = delegation.amount))

/-- `insert_sorted_greatest_to_least`, where the binary search reports `found`. -/
def insertSortedIndexed (self : Delegations A) (found : Except ℕ ℕ) (delegation : Bond A) :
    Exec Empty (Delegations A) := do
  let self := { self with total := satAdd self.total delegation.amount }
  let early ← self.endsInEqual delegation
  if early then .ok (self.push delegation)
  else
    match found with
    | .ok i => self.insertAfterEqual delegation (i + 1)
    | .error i => self.insertAt i delegation

section Indices
variable {self : Delegations A} {x : Bond A} {i : ℕ} {found : Except ℕ ℕ}

theorem entry_of_lt (h : i < self.delegations.length) :
    self.entry i = .ok self.delegations[i] := by
  unfold entry
  rw [List.getElem?_eq_getElem h]

theorem insertAt_of_le (h : i ≤ self.delegations.length) :
    self.insertAt i x = .ok { self with delegations := self.delegations.insertIdx i x } :=
  if_pos h

theorem push_eq_insertIdx : self.push x =
    { self with delegations := self.delegations.insertIdx self.delegations.length x } := by
  unfold push
  rw [List.insertIdx_length_self]

/-- In a list that is not empty, the loop ends in range, at the first entry that differs. -/
theorem insertAfterEqual_eq (hpos : 0 < self.delegations.length)
    (hi : i ≤ self.delegations.length) : self.insertAfterEqual x i =
      .ok { self with delegations :=
        self.delegations.insertIdx (afterEqual x.amount i (self.delegations.drop i)) x } := by
  induction hn : self.delegations.length - i generalizing i with
  | zero =>
    obtain rfl : i = self.delegations.length := by omega
    rw [insertAfterEqual, if_neg (by omega), List.drop_length, afterEqual, push_eq_insertIdx]
  | succ n ih =>
    have hlt : i < self.delegations.length := by omega
    rw [insertAfterEqual, if_pos (by omega), entry_of_lt hlt, Exec.ok_bind,
      List.drop_eq_getElem_cons hlt, afterEqual]
    split_ifs with heq
    · exact ih (by omega) (by omega)
    · exact insertAt_of_le hi

theorem endsInEqual_eq : self.endsInEqual x =
    .ok (decide (self.delegations.getLast?.map Bond.amount = some x.amount)) := by
  unfold endsInEqual
  cases hempty : self.delegations.isEmpty with
  | true =>
    rw [List.isEmpty_iff.mp hempty]
    rfl
  | false =>
    have hne : self.delegations ≠ [] := by simpa using hempty
    have hpos := List.length_pos_iff.mpr hne
    simp only [entry_of_lt (Nat.sub_lt hpos Nat.one_pos), Exec.ok_bind,
      List.getLast?_eq_getLast_of_ne_nil hne, List.getLast_eq_getElem, Option.map_some,
      Option.some.injEq, Bool.false_eq_true, if_false]

/-- Whatever the search reports, no index is out of range. -/
theorem insertSortedIndexed_eq
    (hr : Reports (fun y => compare x.amount y.amount) self.delegations found) :
    self.insertSortedIndexed found x = .ok (self.insertSortedAt found x) := by
  unfold insertSortedIndexed insertSortedAt
  simp only [endsInEqual_eq, Exec.ok_bind, decide_eq_true_eq]
  split_ifs
  · rfl
  · cases found with
    | error i => exact insertAt_of_le hr.1
    | ok i =>
      obtain ⟨y, hy, -⟩ := hr
      have hi := (List.getElem?_eq_some_iff.mp hy).1
      exact insertAfterEqual_eq (Nat.zero_lt_of_lt hi) hi

/-- The search that runs reports a place, so the insertion is the one of the pallet. -/
theorem insertSortedIndexed_binarySearchBy (h : Descending self.delegations) :
    self.insertSortedIndexed
      (binarySearchBy (fun y => compare x.amount y.amount) self.delegations) x =
      .ok (self.insertSortedGreatestToLeast x) :=
  insertSortedIndexed_eq (binarySearchBy_reports (h.ordered x.amount))

/-- Whichever place the search reports, the new entry comes behind all entries that are not smaller
and before all that are. The others keep their order, and the total grows by the amount as far as a
balance goes. -/
theorem insertSortedIndexed_exact (self : Delegations A) (x : Bond A) (found : Except ℕ ℕ)
    (h : Descending self.delegations)
    (hr : Reports (fun y => compare x.amount y.amount) self.delegations found) :
    ∃ before after, self.delegations = before ++ after ∧
      (∀ y ∈ before, x.amount ≤ y.amount) ∧ (∀ y ∈ after, y.amount < x.amount) ∧
      Descending (before ++ x :: after) ∧
      self.insertSortedIndexed found x =
        .ok ⟨before ++ x :: after, min (self.total + x.amount) maxBalance⟩ := by
  refine ⟨_, _, (h.filter_append x.amount).symm, ?_, ?_, h.insert_between, ?_⟩
  · intro y hy
    exact of_decide_eq_true (List.mem_filter.mp hy).2
  · intro y hy
    exact of_decide_eq_true (List.mem_filter.mp hy).2
  · rw [insertSortedIndexed_eq hr, ← insertSortedAt_eq h hr]
    exact congrArg Exec.ok (congrArg (Delegations.mk _) insertSortedAt_total)

/-- Two entries are as great as the new one, and the search reports the first of them. -/
theorem insertSortedIndexed_exact_tied : ∃ before after : List (Bond ℕ),
    [⟨1, 9⟩, ⟨2, 5⟩, ⟨3, 5⟩, ⟨4, 3⟩] = before ++ after ∧
      (∀ y ∈ before, 5 ≤ y.amount) ∧ (∀ y ∈ after, y.amount < 5) ∧
      Descending (before ++ ⟨5, 5⟩ :: after) ∧
      insertSortedIndexed ⟨[⟨1, 9⟩, ⟨2, 5⟩, ⟨3, 5⟩, ⟨4, 3⟩], 22⟩ (.ok 1) ⟨5, 5⟩ =
        .ok ⟨before ++ ⟨5, 5⟩ :: after, min (22 + 5) maxBalance⟩ :=
  insertSortedIndexed_exact ⟨[⟨1, 9⟩, ⟨2, 5⟩, ⟨3, 5⟩, ⟨4, 3⟩], 22⟩ ⟨5, 5⟩ (.ok 1)
    (by unfold Descending; decide) ⟨⟨2, 5⟩, rfl, rfl⟩

/-- Behind the greatest balance, a small amount is not added to the total. -/
theorem insertSortedIndexed_saturates :
    ¬ ∀ (self : Delegations ℕ) (x : Bond ℕ) (found : Except ℕ ℕ),
    Descending self.delegations →
    Reports (fun y => compare x.amount y.amount) self.delegations found →
    self.total = amounts self.delegations → self.total ≤ maxBalance →
    ∃ after, self.insertSortedIndexed found x = .ok after ∧
      after.total = self.total + x.amount := by
  intro h
  have hr : Reports (fun y : Bond ℕ => compare 1 y.amount) [⟨1, maxBalance⟩] (.error 1) := by
    refine ⟨Nat.le_refl 1, ?_, by simp⟩
    decide
  obtain ⟨after, hrun, htotal⟩ := h ⟨[⟨1, maxBalance⟩], maxBalance⟩ ⟨2, 1⟩ (.error 1)
    (List.pairwise_singleton _ _) hr (by simp) (Nat.le_refl _)
  rw [insertSortedIndexed_eq hr] at hrun
  rw [← Exec.ok.inj hrun, insertSortedAt_total] at htotal
  exact absurd htotal (by decide)

end Indices

end Delegations
end Staking
end ZkNft
