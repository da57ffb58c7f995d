import ZkNft.Staking.Lists

/-! The top and bottom delegations of a candidate: how they are ranked, what its metadata says of
them, and what the removal of a delegation does. -/

namespace ZkNft
namespace Staking
open BinarySearch Keyed StorageMap

variable {R : Runtime}

/-- Positive minima, and a place in each list. -/
structure Runtime.Proper (R : Runtime) : Prop where
  maxTop_pos : 1 ≤ R.maxTopDelegationsPerCandidate
  maxBottom_pos : 1 ≤ R.maxBottomDelegationsPerCandidate
  maxDelegations_pos : 1 ≤ R.maxDelegationsPerDelegator
  minDelegation_pos : 0 < R.minDelegation
  minDelegatorStk_pos : 0 < R.minDelegatorStk

/-- What the lists rely on: positive minima, and a place in each list of a candidate. -/
structure Runtime.Placed (R : Runtime) : Prop where
  maxTop_pos : 1 ≤ R.maxTopDelegationsPerCandidate
  maxBottom_pos : 1 ≤ R.maxBottomDelegationsPerCandidate
  minDelegation_pos : 0 < R.minDelegation
  minDelegatorStk_pos : 0 < R.minDelegatorStk

theorem Runtime.Proper.placed (h : R.Proper) : R.Placed :=
  ⟨h.maxTop_pos, h.maxBottom_pos, h.minDelegation_pos, h.minDelegatorStk_pos⟩

/-- The top list holds the greatest delegations, and the bottom list those it has no place for. -/
structure Ranked (R : Runtime) (top bottom : List (Bond R.Account)) : Prop where
  top_sorted : Descending top
  bottom_sorted : Descending bottom
  le : ∀ x ∈ top, ∀ y ∈ bottom, y.amount ≤ x.amount
  full : bottom ≠ [] → top.length = R.maxTopDelegationsPerCandidate
  top_le : top.length ≤ R.maxTopDelegationsPerCandidate
  bottom_le : bottom.length ≤ R.maxBottomDelegationsPerCandidate
  oneEach : OneEach (top ++ bottom)
  pos : ∀ x ∈ top ++ bottom, 0 < x.amount

/-- The metadata of a candidate says what its lists hold. -/
structure Mirrors (R : Runtime) (m : CandidateMetadata) (top bottom : Delegations R.Account) :
    Prop where
  lowestTop : m.lowestTopDelegationAmount = top.lowestDelegationAmount
  highestBottom : m.highestBottomDelegationAmount = bottom.highestDelegationAmount
  lowestBottom : m.lowestBottomDelegationAmount = bottom.lowestDelegationAmount
  topCapacity : m.topCapacity = top.topCapacity R
  bottomCapacity : m.bottomCapacity = bottom.bottomCapacity R
  count : m.delegationCount = top.delegations.length + bottom.delegations.length

/-- An exact list stays exact as long as its sum fits. -/
def StaysExact (list list' : Delegations R.Account) : Prop :=
  amounts list'.delegations ≤ maxBalance → list.Exact → list'.Exact

/-- The lists and the metadata of a candidate after an operation that takes the delegations `o`
for `n`. -/
structure Relists (m m' : CandidateMetadata) (top bottom top' bottom' : Delegations R.Account)
    (o n : List (Bond R.Account)) : Prop where
  ranked : Ranked R top'.delegations bottom'.delegations
  mirrors : Mirrors R m' top' bottom'
  exchange : Exchange o n (top.delegations ++ bottom.delegations)
    (top'.delegations ++ bottom'.delegations)
  bond : m'.bond = m.bond
  request : m'.request = m.request
  status : m'.status = m.status
  top_exact : StaysExact top top'

section Runs
variable {α β : Type} {s s' : State R} {u : PUnit}

theorem getExpect_bind {f : State R → Option α} {msg : String} {g : α → Update R β} {a : α}
    (h : f s = some a) : (getExpect f msg >>= g) s = g a s := by
  apply Tx.bind_run_of_ok
  rw [getExpect, Tx.read_run, h]
  rfl

theorem getOr_bind {f : State R → Option α} {e : Error} {g : α → Update R β} {a : α}
    (h : f s = some a) : (getOr f e >>= g) s = g a s := by
  apply Tx.bind_run_of_ok
  rw [getOr, Tx.read_run, h]
  rfl

theorem getOr_bind_none {f : State R → Option α} {e : Error} {g : α → Update R β}
    (h : f s = none) : (getOr f e >>= g) s = (.err (.module e), s) := by
  rw [getOr, Tx.bind_run, Tx.bind, Tx.read_run, h]
  rfl

theorem ensure_bind {p : State R → Bool} {e : Error} {g : PUnit → Update R β} (h : p s = true) :
    (ensure p e >>= g) s = g ⟨⟩ s := by
  apply Tx.bind_run_of_ok
  rw [ensure, Tx.read_run, Exec.ensure, if_pos h]

theorem ensure_bind_false {p : State R → Bool} {e : Error} {g : PUnit → Update R β}
    (h : p s = false) : (ensure p e >>= g) s = (.err (.module e), s) := by
  have hnot : ¬ p s = true := by
    rw [h]
    exact Bool.noConfusion
  rw [ensure, Tx.bind_run, Tx.bind, Tx.read_run, Exec.ensure, if_neg hnot]

theorem modify_bind {f : State R → State R} {g : PUnit → Update R β} :
    (Tx.modify f >>= g) s = g ⟨⟩ (f s) := rfl

end Runs

namespace Delegations
variable {self : Delegations R.Account} {d : R.Account} {a : ℕ}

/-- The list without the delegation of `a` by `d`. -/
def without (self : Delegations R.Account) (d : R.Account) (a : ℕ) : Delegations R.Account :=
  ⟨self.delegations.filter fun y => y.owner ≠ d, self.total - a⟩

section
variable (hone : OneEach self.delegations) (hx : ⟨d, a⟩ ∈ self.delegations)
include hone hx

theorem without_perm : self.delegations.Perm (⟨d, a⟩ :: (self.without d a).delegations) :=
  hone.perm_cons_filter hx

theorem without_length : self.delegations.length = (self.without d a).delegations.length + 1 :=
  (without_perm hone hx).length_eq

end

theorem mem_of_without {y : Bond R.Account} (hy : y ∈ (self.without d a).delegations) :
    y ∈ self.delegations := (List.mem_filter.mp hy).1

theorem without_descending (h : Descending self.delegations) :
    Descending (self.without d a).delegations := h.sublist List.filter_sublist

section Ends
variable {x : Bond R.Account}

/-- The list without its lowest delegation `x`. -/
def dropLowest (self : Delegations R.Account) (x : Bond R.Account) : Delegations R.Account :=
  ⟨self.delegations.dropLast, self.total - x.amount⟩

/-- The list without its highest delegation `x`. -/
def dropHighest (self : Delegations R.Account) (x : Bond R.Account) : Delegations R.Account :=
  ⟨self.delegations.tail, self.total - x.amount⟩

theorem dropLowest_perm (hx : self.delegations.getLast? = some x) :
    self.delegations.Perm (x :: (self.dropLowest x).delegations) := by
  obtain ⟨init, hinit⟩ := List.getLast?_eq_some_iff.mp hx
  rw [dropLowest, hinit, List.dropLast_concat]
  exact List.perm_append_singleton x init

theorem dropHighest_perm (hx : self.delegations.head? = some x) :
    self.delegations.Perm (x :: (self.dropHighest x).delegations) := by
  obtain ⟨tail, htail⟩ := List.head?_eq_some_iff.mp hx
  rw [dropHighest, htail]
  exact .refl _

theorem dropLowest_descending (h : Descending self.delegations) :
    Descending (self.dropLowest x).delegations := h.sublist (List.dropLast_sublist _)

theorem dropHighest_descending (h : Descending self.delegations) :
    Descending (self.dropHighest x).delegations := h.sublist (List.tail_sublist _)

theorem mem_of_dropLowest {y : Bond R.Account} (hy : y ∈ (self.dropLowest x).delegations) :
    y ∈ self.delegations := (List.dropLast_sublist _).subset hy

theorem mem_of_dropHighest {y : Bond R.Account} (hy : y ∈ (self.dropHighest x).delegations) :
    y ∈ self.delegations := List.mem_of_mem_tail hy

/-- The total of an exact list goes down by the amount that is taken out. -/
theorem Exact.of_perm {rest : List (Bond R.Account)} (hp : self.delegations.Perm (x :: rest))
    (he : self.Exact) : (⟨rest, self.total - x.amount⟩ : Delegations R.Account).Exact := by
  have hsum := (amounts_perm hp).trans amounts_cons
  unfold Exact at he ⊢
  rw [he, hsum]
  exact Nat.add_sub_cancel_left _ _

theorem Exact.without (hone : OneEach self.delegations) (hx : ⟨d, a⟩ ∈ self.delegations)
    (he : self.Exact) : (self.without d a).Exact := .of_perm (without_perm hone hx) he

end Ends

theorem insertSorted_length {x : Bond R.Account} (h : Descending self.delegations) :
    (self.insertSortedGreatestToLeast x).delegations.length = self.delegations.length + 1 :=
  (insertSorted_perm h).length_eq

theorem insertSorted_amounts {x : Bond R.Account} (h : Descending self.delegations) :
    amounts (self.insertSortedGreatestToLeast x).delegations =
      x.amount + amounts self.delegations := (amounts_perm (insertSorted_perm h)).trans amounts_cons

theorem mem_insertSorted {x y : Bond R.Account} (h : Descending self.delegations) :
    y ∈ (self.insertSortedGreatestToLeast x).delegations ↔ y = x ∨ y ∈ self.delegations :=
  (insertSorted_perm h).mem_iff.trans List.mem_cons

end Delegations

section Lists
variable {l l' : List (Bond R.Account)} {d : R.Account} {a : ℕ}

/-- Who has no entry has no amount. -/
theorem actualAmount_none (h : ∀ x ∈ l, x.owner ≠ d) :
    CandidateMetadata.actualAmount l d = none := by
  have hnil : (l.filter fun x => x.owner = d) = [] :=
    List.filter_eq_nil_iff.mpr fun x hx => by simpa using h x hx
  rw [CandidateMetadata.actualAmount, hnil]
  rfl

theorem actualAmount_some (hone : OneEach l) (hx : ⟨d, a⟩ ∈ l) :
    CandidateMetadata.actualAmount l d = some a := by
  rw [CandidateMetadata.actualAmount, filter_owner hone hx]
  rfl

theorem hasOwner_true (hx : ⟨d, a⟩ ∈ l) : CandidateMetadata.hasOwner l d = true :=
  List.any_eq_true.mpr ⟨_, hx, by simp⟩

theorem hasOwner_false (h : ∀ x ∈ l, x.owner ≠ d) : CandidateMetadata.hasOwner l d = false := by
  rw [CandidateMetadata.hasOwner, List.any_eq_false]
  intro x hx
  simpa using h x hx

theorem capacity_full {max : ℕ} {list : Delegations R.Account} :
    list.capacity max = .full ↔ max ≤ list.delegations.length := by
  unfold Delegations.capacity
  split_ifs with h h'
  · exact iff_of_true rfl h
  · exact iff_of_false (by simp) h
  · exact iff_of_false (by simp) h

theorem capacity_empty {max : ℕ} {list : Delegations R.Account} (hmax : 1 ≤ max) :
    list.capacity max = .empty ↔ list.delegations = [] := by
  unfold Delegations.capacity
  split_ifs with h h'
  · constructor
    · intro hfull
      cases hfull
    · intro hnil
      rw [hnil, List.length_nil] at h
      omega
  · exact iff_of_true rfl (List.isEmpty_iff.mp h')
  · exact iff_of_false (by simp) (by simpa using h')

theorem lowest_le {list : Delegations R.Account} (h : Descending list.delegations)
    {x : Bond R.Account} (hx : x ∈ list.delegations) : list.lowestDelegationAmount ≤ x.amount := by
  unfold Delegations.lowestDelegationAmount
  cases hlast : list.delegations.getLast? with
  | none => exact Nat.zero_le _
  | some y => exact h.last_le hlast hx

theorem le_highest {list : Delegations R.Account} (h : Descending list.delegations)
    {x : Bond R.Account} (hx : x ∈ list.delegations) :
    x.amount ≤ list.highestDelegationAmount := by
  unfold Delegations.highestDelegationAmount
  cases hhead : list.delegations.head? with
  | none =>
    rw [List.head?_eq_none_iff.mp hhead] at hx
    cases hx
  | some y => exact h.le_head hhead hx

end Lists

namespace Ranked
variable {top bottom top' bottom' o n : List (Bond R.Account)} {x y : Bond R.Account}

theorem oneEach_top (h : Ranked R top bottom) : OneEach top :=
  h.oneEach.sublist (List.sublist_append_left _ _)

theorem oneEach_bottom (h : Ranked R top bottom) : OneEach bottom :=
  h.oneEach.sublist (List.sublist_append_right _ _)

/-- The owner of an entry of one list has none in the other. -/
theorem ne_of_mem (h : Ranked R top bottom) (hx : x ∈ top) (hy : y ∈ bottom) :
    x.owner ≠ y.owner := by
  have hnodup : (top.map Bond.owner ++ bottom.map Bond.owner).Nodup := by
    rw [← List.map_append]
    exact h.oneEach
  exact (List.nodup_append.mp hnodup).2.2 _ (List.mem_map_of_mem hx) _ (List.mem_map_of_mem hy)

/-- Lists that come from an exchange are ranked if their order and their lengths are right. -/
theorem of_exchange (h : Ranked R top bottom) (he : Exchange o n (top ++ bottom) (top' ++ bottom'))
    (hn : OneEach n) (hpos : ∀ x ∈ n, 0 < x.amount)
    (hkeys : ∀ x ∈ n, ∀ y ∈ top ++ bottom, y.owner = x.owner → ∃ z ∈ o, z.owner = x.owner)
    (htop : Descending top') (hbottom : Descending bottom')
    (hle : ∀ x ∈ top', ∀ y ∈ bottom', y.amount ≤ x.amount)
    (hfull : bottom' ≠ [] → top'.length = R.maxTopDelegationsPerCandidate)
    (hmaxTop : top'.length ≤ R.maxTopDelegationsPerCandidate)
    (hmaxBottom : bottom'.length ≤ R.maxBottomDelegationsPerCandidate) :
    Ranked R top' bottom' := by
  refine ⟨htop, hbottom, hle, hfull, hmaxTop, hmaxBottom, he.distinct h.oneEach hn hkeys, ?_⟩
  intro x hx
  rcases (he.mem_iff h.oneEach).mp hx with hx | ⟨hx, -⟩
  · exact hpos x hx
  · exact h.pos x hx

/-- A top entry is at least as great as the greatest bottom one, a bottom entry at most as great as
the lowest top one. -/
theorem highest_le {list : Delegations R.Account} (h : Ranked R top list.delegations)
    (hx : x ∈ top) : list.highestDelegationAmount ≤ x.amount := by
  unfold Delegations.highestDelegationAmount
  cases hhead : list.delegations.head? with
  | none => exact Nat.zero_le _
  | some y => exact h.le x hx y (List.mem_of_head? hhead)

end Ranked

/-- The pool after the metadata of a candidate changed: an active candidate whose counted stake
changed has the new one. -/
def poolAfter (pool : List (Bond R.Account)) (candidate : R.Account)
    (m m' : CandidateMetadata) : List (Bond R.Account) :=
  if m.totalCounted ≠ m'.totalCounted ∧ m'.isActive = true then
    let candidates := (OrderedSet.remove pool candidate).getD pool
    (OrderedSet.insert candidates ⟨candidate, m'.totalCounted⟩).getD candidates
  else pool

/-- The state with new lists of a candidate whose metadata goes from `m` to `m'`. -/
def State.relist (s : State R) (candidate : R.Account) (m m' : CandidateMetadata)
    (top bottom : Delegations R.Account) : State R :=
  { s with
    topDelegations := s.topDelegations.insert candidate top
    bottomDelegations := s.bottomDelegations.insert candidate bottom
    candidatePool := poolAfter s.candidatePool candidate m m' }

namespace CandidateMetadata
variable {m : CandidateMetadata} {s : State R} {c d : R.Account} {a : ℕ}
  {top bottom : Delegations R.Account}

/-- The metadata that `reset_top_data` makes. -/
def withTop (R : Runtime) (m : CandidateMetadata) (top : Delegations R.Account) :
    CandidateMetadata :=
  { m with
    lowestTopDelegationAmount := top.lowestDelegationAmount
    topCapacity := top.topCapacity R
    totalCounted := satAdd m.bond top.total }

theorem resetTopData_run : m.resetTopData c top s = (.ok (m.withTop R top),
    { s with candidatePool := poolAfter s.candidatePool c m (m.withTop R top) }) := by
  unfold resetTopData poolAfter
  simp only
  split_ifs with hchange hchange' hchange'
  · rfl
  · exact absurd hchange hchange'
  · exact absurd hchange' hchange
  · rfl

end CandidateMetadata

section Remove
variable {m : CandidateMetadata} {s : State R} {c d : R.Account} {a : ℕ} {h : Bond R.Account}
  {top bottom : Delegations R.Account} (htop : s.topDelegations.get c = some top)
  (hbottom : s.bottomDelegations.get c = some bottom)
include htop hbottom

/-- A top delegation is removed, and there is no bottom one to take its place. -/
theorem rmTopDelegation_last {top' : Delegations R.Account} {m' : CandidateMetadata}
    (hone : OneEach top.delegations) (hx : ⟨d, a⟩ ∈ top.delegations)
    (hcap : m.bottomCapacity = .empty)
    (htop' : top' = ⟨top.delegations.filter fun y => y.owner ≠ d, top.total - a⟩)
    (hm' : m' = { m.withTop R top' with delegationCount := m.delegationCount - 1 }) :
    m.rmTopDelegation c d s = (.ok m', s.relist c m m' top' bottom) := by
  unfold CandidateMetadata.rmTopDelegation
  rw [getExpect_bind htop, getOr_bind (actualAmount_some hone hx), ← htop']
  have hbump : m.bumpHighestBottom c top' s = (.ok (m, top'), s) := by
    rw [CandidateMetadata.bumpHighestBottom, if_neg (not_not.mpr hcap)]
    rfl
  rw [Tx.bind_run_of_ok hbump]
  dsimp only
  rw [Tx.bind_run_of_ok CandidateMetadata.resetTopData_run, modify_bind, State.relist,
    insert_of_get hbottom, hm']
  rfl

/-- A top delegation is removed, and the highest bottom one takes its place. -/
theorem rmTopDelegation_bump {top' bottom' : Delegations R.Account} {m' : CandidateMetadata}
    (hone : OneEach top.delegations) (hx : ⟨d, a⟩ ∈ top.delegations)
    (hcap : m.bottomCapacity ≠ .empty) (hhead : bottom.delegations.head? = some h)
    (htop' : top' = (⟨top.delegations.filter fun y => y.owner ≠ d, top.total - a⟩ :
      Delegations R.Account).insertSortedGreatestToLeast h)
    (hbottom' : bottom' = bottom.dropHighest h)
    (hm' : m' = { (m.resetBottomData R bottom').withTop R top' with
      delegationCount := m.delegationCount - 1 }) :
    m.rmTopDelegation c d s = (.ok m', s.relist c m m' top' bottom') := by
  unfold CandidateMetadata.rmTopDelegation
  rw [getExpect_bind htop, getOr_bind (actualAmount_some hone hx)]
  have hbump : m.bumpHighestBottom c
      ⟨top.delegations.filter fun y => y.owner ≠ d, top.total - a⟩ s =
      (.ok (m.resetBottomData R bottom', top'),
        { s with bottomDelegations := s.bottomDelegations.insert c bottom' }) := by
    rw [CandidateMetadata.bumpHighestBottom, if_pos hcap, getExpect_bind hbottom, hhead, htop',
      hbottom']
    rfl
  rw [Tx.bind_run_of_ok hbump]
  dsimp only
  rw [Tx.bind_run_of_ok CandidateMetadata.resetTopData_run, modify_bind, State.relist, hm']
  rfl

theorem rmBottomDelegation_eq {bottom' : Delegations R.Account} {m' : CandidateMetadata}
    (hone : OneEach bottom.delegations) (hx : ⟨d, a⟩ ∈ bottom.delegations)
    (hbottom' : bottom' = ⟨bottom.delegations.filter fun y => y.owner ≠ d, bottom.total - a⟩)
    (hm' : m' = { m.resetBottomData R bottom' with delegationCount := m.delegationCount - 1 }) :
    m.rmBottomDelegation c d s = (.ok m', s.relist c m m' top bottom') := by
  unfold CandidateMetadata.rmBottomDelegation
  have hpool : poolAfter s.candidatePool c m m' = s.candidatePool := by
    rw [poolAfter, if_neg]
    rintro ⟨hne, -⟩
    rw [hm'] at hne
    exact hne rfl
  rw [getExpect_bind hbottom, getOr_bind (actualAmount_some hone hx), ← hbottom', modify_bind,
    State.relist, insert_of_get htop, hpool, hm']
  rfl

end Remove

section RemoveSpec
variable {m : CandidateMetadata} {s : State R} {c d : R.Account} {a : ℕ}
  {top bottom : Delegations R.Account} (hR : R.Placed)
  (htop : s.topDelegations.get c = some top) (hbottom : s.bottomDelegations.get c = some bottom)
  (hr : Ranked R top.delegations bottom.delegations) (hm : Mirrors R m top bottom)
include htop hbottom hr hm

section Relists
omit htop hbottom

/-- A top delegation goes, and there is no bottom delegation to take its place. -/
theorem relists_rmTopLast (hx : ⟨d, a⟩ ∈ top.delegations) (hnil : bottom.delegations = []) :
    Relists m { m.withTop R (top.without d a) with delegationCount := m.delegationCount - 1 } top
      bottom (top.without d a) bottom [⟨d, a⟩] [] := by
  have hone := hr.oneEach_top
  have hlen := Delegations.without_length hone hx
  have hcount := hm.count
  have hmaxTop := hr.top_le
  have he := (Exchange.remove (Delegations.without_perm hone hx)).append_right bottom.delegations
  refine ⟨?_, ⟨rfl, hm.highestBottom, hm.lowestBottom, rfl, hm.bottomCapacity, ?_⟩, he, rfl, rfl,
    rfl, fun _ => .without hone hx⟩
  · apply hr.of_exchange he
    · exact List.nodup_nil
    · simp
    · simp
    · exact Delegations.without_descending hr.top_sorted
    · exact hr.bottom_sorted
    · exact fun x hx => hr.le x (Delegations.mem_of_without hx)
    · exact fun hne => absurd hnil hne
    · omega
    · exact hr.bottom_le
  · show m.delegationCount - 1 = _
    omega

/-- A top delegation goes, and the highest bottom delegation takes its place. -/
theorem relists_rmTopBump {h : Bond R.Account} (hx : ⟨d, a⟩ ∈ top.delegations)
    (hhead : bottom.delegations.head? = some h) :
    Relists m { (m.resetBottomData R (bottom.dropHighest h)).withTop R
        ((top.without d a).insertSortedGreatestToLeast h) with
      delegationCount := m.delegationCount - 1 } top bottom
      ((top.without d a).insertSortedGreatestToLeast h) (bottom.dropHighest h) [⟨d, a⟩] [] := by
  have hone := hr.oneEach_top
  have hperm := Delegations.without_perm hone hx
  have hlen := Delegations.without_length hone hx
  have hsorted := Delegations.without_descending (d := d) (a := a) hr.top_sorted
  have hrestPerm := Delegations.dropHighest_perm hhead
  have hrestLen := hrestPerm.length_eq
  have hinsertLen := Delegations.insertSorted_length (x := h) hsorted
  have hcount := hm.count
  have hmaxTop := hr.top_le
  have hmaxBottom := hr.bottom_le
  have hfull := hr.full (List.ne_nil_of_mem (List.mem_of_head? hhead))
  rw [List.length_cons] at hrestLen
  have htopEx : Exchange [⟨d, a⟩] [h] top.delegations _ :=
    .of_perm hperm (Delegations.insertSorted_perm hsorted)
  have he : Exchange [⟨d, a⟩] [] (top.delegations ++ bottom.delegations)
      (((top.without d a).insertSortedGreatestToLeast h).delegations ++
        (bottom.dropHighest h).delegations) :=
    (htopEx.append (.remove hrestPerm)).cancel (.refl _) (.refl _)
  refine ⟨?_, ⟨rfl, rfl, rfl, rfl, rfl, ?_⟩, he, rfl, rfl, rfl, ?_⟩
  · apply hr.of_exchange he
    · exact List.nodup_nil
    · simp
    · simp
    · exact Delegations.insertSorted_descending hsorted
    · exact Delegations.dropHighest_descending hr.bottom_sorted
    · intro x hx y hy
      have hyb := Delegations.mem_of_dropHighest hy
      rcases (Delegations.mem_insertSorted hsorted).mp hx with rfl | hx
      · exact hr.bottom_sorted.le_head hhead hyb
      · exact hr.le x (Delegations.mem_of_without hx) y hyb
    · intro _
      omega
    · omega
    · omega
  · show m.delegationCount - 1 = _
    omega
  · intro hbound hexact
    rw [Delegations.insertSorted_amounts hsorted] at hbound
    apply Delegations.Exact.insertSorted (.without hone hx hexact) hsorted
    omega

end Relists

include hR in
theorem rmTopDelegation_run (hx : ⟨d, a⟩ ∈ top.delegations) : ∃ m' top' bottom',
    m.rmTopDelegation c d s = (.ok m', s.relist c m m' top' bottom') ∧
      Relists m m' top bottom top' bottom' [⟨d, a⟩] [] ∧ StaysExact bottom bottom' := by
  have hone := hr.oneEach_top
  have hempty : m.bottomCapacity = .empty ↔ bottom.delegations = [] := by
    rw [hm.bottomCapacity]
    exact capacity_empty hR.maxBottom_pos
  cases hhead : bottom.delegations.head? with
  | none =>
    have hnil := List.head?_eq_none_iff.mp hhead
    have hrun := rmTopDelegation_last htop hbottom hone hx (hempty.mpr hnil) rfl rfl
    exact ⟨_, top.without d a, _, hrun, relists_rmTopLast hr hm hx hnil, fun _ hexact => hexact⟩
  | some h =>
    have hne := List.ne_nil_of_mem (List.mem_of_head? hhead)
    have hrun := rmTopDelegation_bump htop hbottom hone hx (fun hcap => hne (hempty.mp hcap)) hhead
      rfl rfl rfl
    exact ⟨_, (top.without d a).insertSortedGreatestToLeast h, _, hrun,
      relists_rmTopBump hr hm hx hhead, fun _ => .of_perm (Delegations.dropHighest_perm hhead)⟩

theorem rmBottomDelegation_run (hx : ⟨d, a⟩ ∈ bottom.delegations) : ∃ m' bottom',
    m.rmBottomDelegation c d s = (.ok m', s.relist c m m' top bottom') ∧
      Relists m m' top bottom top bottom' [⟨d, a⟩] [] ∧ StaysExact bottom bottom' := by
  have hone := hr.oneEach_bottom
  have hlen := Delegations.without_length hone hx
  have hcount := hm.count
  have hmaxBottom := hr.bottom_le
  have he := (Exchange.remove (Delegations.without_perm hone hx)).append_left top.delegations
  refine ⟨_, bottom.without d a, rmBottomDelegation_eq htop hbottom hone hx rfl rfl, ?_⟩
  refine ⟨⟨?_, ⟨hm.lowestTop, rfl, rfl, hm.topCapacity, rfl, ?_⟩, he, rfl, rfl, rfl,
    fun _ hexact => hexact⟩, fun _ => .without hone hx⟩
  · apply hr.of_exchange he
    · exact List.nodup_nil
    · simp
    · simp
    · exact hr.top_sorted
    · exact Delegations.without_descending hr.bottom_sorted
    · exact fun x hx y hy => hr.le x hx y (Delegations.mem_of_without hy)
    · exact fun _ => hr.full (List.ne_nil_of_mem hx)
    · exact hr.top_le
    · omega
  · show m.delegationCount - 1 = _
    omega

end RemoveSpec

section Route
variable {m : CandidateMetadata} {s : State R} {c d : R.Account} {a : ℕ}
  {top bottom : Delegations R.Account}

theorem rmTopDelegation_none (htop : s.topDelegations.get c = some top)
    (hx : ∀ x ∈ top.delegations, x.owner ≠ d) :
    m.rmTopDelegation c d s = (.err (.module .delegationDNE), s) := by
  unfold CandidateMetadata.rmTopDelegation
  rw [getExpect_bind htop, getOr_bind_none (actualAmount_none hx)]

/-- The amount of a top delegation is at least the lowest one that the metadata has. -/
theorem Mirrors.lowest_le (hm : Mirrors R m top bottom) (h : Descending top.delegations)
    (hx : ⟨d, a⟩ ∈ top.delegations) : m.lowestTopDelegationAmount ≤ a := by
  rw [hm.lowestTop]
  exact Staking.lowest_le h hx

/-- A full top list has a lowest delegation. -/
theorem Mirrors.last_of_top (hR : R.Placed) (hm : Mirrors R m top bottom)
    (hfull : top.delegations.length = R.maxTopDelegationsPerCandidate) :
    ∃ x, top.delegations.getLast? = some x ∧ m.lowestTopDelegationAmount = x.amount := by
  cases hlast : top.delegations.getLast? with
  | none =>
    have hpos := hR.maxTop_pos
    rw [List.getLast?_eq_none_iff.mp hlast, List.length_nil] at hfull
    omega
  | some x =>
    refine ⟨x, rfl, ?_⟩
    rw [hm.lowestTop, Delegations.lowestDelegationAmount, hlast]
    rfl

/-- Where the bottom list has an entry, the top list is full of at least as great ones. -/
theorem Mirrors.bottom_facts (hR : R.Placed) (hm : Mirrors R m top bottom)
    (hr : Ranked R top.delegations bottom.delegations) (hx : ⟨d, a⟩ ∈ bottom.delegations) :
    m.topCapacity = .full ∧ a ≤ m.highestBottomDelegationAmount ∧
      m.highestBottomDelegationAmount ≤ m.lowestTopDelegationAmount := by
  have hfull := hr.full (List.ne_nil_of_mem hx)
  obtain ⟨y, hlast, hlow⟩ := hm.last_of_top hR hfull
  rw [hm.topCapacity, hm.highestBottom, hlow]
  exact ⟨capacity_full.mpr (Nat.le_of_eq hfull.symm), le_highest hr.bottom_sorted hx,
    hr.highest_le (List.mem_of_getLast? hlast)⟩

/-- The search for a top delegation starts in the top list. -/
theorem Mirrors.top_routed (hm : Mirrors R m top bottom)
    (hr : Ranked R top.delegations bottom.delegations) (hx : ⟨d, a⟩ ∈ top.delegations) :
    (a ≥ m.lowestTopDelegationAmount ∧
        ¬ m.lowestTopDelegationAmount = m.highestBottomDelegationAmount) ∨
      (a ≥ m.lowestTopDelegationAmount ∧
        m.lowestTopDelegationAmount = m.highestBottomDelegationAmount) := by
  have hlow := hm.lowest_le hr.top_sorted hx
  by_cases heq : m.lowestTopDelegationAmount = m.highestBottomDelegationAmount
  · exact .inr ⟨hlow, heq⟩
  · exact .inl ⟨hlow, heq⟩

/-- The search for a bottom delegation does not end in the top list. -/
theorem Mirrors.bottom_routed (hR : R.Placed) (hm : Mirrors R m top bottom)
    (hr : Ranked R top.delegations bottom.delegations) (hx : ⟨d, a⟩ ∈ bottom.delegations) :
    ¬ (a ≥ m.lowestTopDelegationAmount ∧
      ¬ m.lowestTopDelegationAmount = m.highestBottomDelegationAmount) := by
  have ⟨_, hhigh, hlow⟩ := hm.bottom_facts hR hr hx
  rintro ⟨hge, hne⟩
  omega

/-- A bottom list that the metadata does not call empty has a greatest delegation. -/
theorem Mirrors.head_of_bottom (hR : R.Placed) (hm : Mirrors R m top bottom)
    (hne : m.bottomCapacity ≠ .empty) : ∃ x, bottom.delegations.head? = some x ∧
      m.highestBottomDelegationAmount = x.amount := by
  cases hhead : bottom.delegations.head? with
  | none =>
    have hempty : m.bottomCapacity = .empty := by
      rw [hm.bottomCapacity]
      exact (capacity_empty hR.maxBottom_pos).mpr (List.head?_eq_none_iff.mp hhead)
    exact absurd hempty hne
  | some x =>
    refine ⟨x, rfl, ?_⟩
    rw [hm.highestBottom, Delegations.highestDelegationAmount, hhead]
    rfl

variable {X Y : Update R CandidateMetadata} {C₁ C₂ : Prop} [Decidable C₁] [Decidable C₂]
  {m' : CandidateMetadata} {s' : State R}

/-- The search for a delegation ends in the top list if it is there. -/
theorem route_top (h : C₁ ∨ C₂) (hX : X s = (.ok m', s')) :
    (if C₁ then X else if C₂ then Tx.recover CandidateMetadata.isDelegationDNE X Y else Y) s =
      (.ok m', s') := by
  split_ifs with h₁ h₂
  · exact hX
  · rw [Tx.recover, hX]
  · exact absurd h (not_or.mpr ⟨h₁, h₂⟩)

/-- The search for a delegation that is not in the top list ends in the bottom list. -/
theorem route_bottom (h : ¬ C₁) (hX : X s = (.err (.module .delegationDNE), s))
    (hY : Y s = (.ok m', s')) :
    (if C₁ then X else if C₂ then Tx.recover CandidateMetadata.isDelegationDNE X Y else Y) s =
      (.ok m', s') := by
  rw [if_neg h]
  split_ifs with h₂
  · rw [Tx.recover, hX]
    exact hY
  · exact hY

variable (hR : R.Placed) (htop : s.topDelegations.get c = some top)
  (hbottom : s.bottomDelegations.get c = some bottom)
  (hr : Ranked R top.delegations bottom.delegations) (hm : Mirrors R m top bottom)
include hR htop hbottom hr hm

/-- A delegation that exists is removed. -/
theorem rmDelegationIfExists_run (hx : ⟨d, a⟩ ∈ top.delegations ++ bottom.delegations) :
    ∃ m' top' bottom',
      m.rmDelegationIfExists c d a s = (.ok m', s.relist c m m' top' bottom') ∧
        Relists m m' top bottom top' bottom' [⟨d, a⟩] [] ∧ StaysExact bottom bottom' := by
  rcases List.mem_append.mp hx with hx | hx
  · obtain ⟨m', top', bottom', hrun, hlists⟩ := rmTopDelegation_run hR htop hbottom hr hm hx
    refine ⟨m', top', bottom', route_top ?_ hrun, hlists⟩
    exact (hm.top_routed hr hx).imp_left .inr
  · obtain ⟨m', bottom', hrun, hlists⟩ := rmBottomDelegation_run htop hbottom hr hm hx
    have hnone := rmTopDelegation_none (m := m) htop fun y hy => hr.ne_of_mem hy hx
    refine ⟨m', top, bottom', route_bottom ?_ hnone hrun, hlists⟩
    rintro (hnot | hge)
    · exact hnot (hm.bottom_facts hR hr hx).1
    · exact hm.bottom_routed hR hr hx hge

end Route
end Staking
end ZkNft
