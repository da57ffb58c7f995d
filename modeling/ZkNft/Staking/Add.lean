import ZkNft.Staking.Delegators

/-! What a new delegation does to the lists of a candidate, and whom it kicks. -/

namespace ZkNft
namespace Staking
open Keyed StorageMap

variable {R : Runtime}

/-- A place in the bottom list: the entries that leave it, what is left, the state after, and the
amount that is kicked. -/
inductive Room (s : State R) (c : R.Account) (bottom : Delegations R.Account) :
    List (Bond R.Account) → Delegations R.Account → State R → Option ℕ → Prop where
  | free (h : bottom.delegations.length < R.maxBottomDelegationsPerCandidate) :
    Room s c bottom [] bottom s none
  | kicked {k : R.Account} {a : ℕ} (v : Drop s c k a)
    (hlast : bottom.delegations.getLast? = some ⟨k, a⟩) :
    Room s c bottom [⟨k, a⟩] (bottom.dropLowest ⟨k, a⟩) v.result (some a)

namespace Room
variable {s s₁ : State R} {c : R.Account} {bottom bottom₀ : Delegations R.Account}
  {o : List (Bond R.Account)} {less : Option ℕ}

theorem perm (h : Room s c bottom o bottom₀ s₁ less) :
    bottom.delegations.Perm (o ++ bottom₀.delegations) := by
  cases h with
  | free => exact .refl _
  | kicked v hlast => exact Delegations.dropLowest_perm hlast

theorem descending (h : Room s c bottom o bottom₀ s₁ less) (hs : Descending bottom.delegations) :
    Descending bottom₀.delegations := by
  cases h with
  | free => exact hs
  | kicked => exact Delegations.dropLowest_descending hs

theorem exact (h : Room s c bottom o bottom₀ s₁ less) (he : bottom.Exact) : bottom₀.Exact := by
  cases h with
  | free => exact he
  | kicked v hlast => exact .of_perm (Delegations.dropLowest_perm hlast) he

theorem length_lt (h : Room s c bottom o bottom₀ s₁ less)
    (hle : bottom.delegations.length ≤ R.maxBottomDelegationsPerCandidate) :
    bottom₀.delegations.length < R.maxBottomDelegationsPerCandidate := by
  have hlen := h.perm.length_eq
  rw [List.length_append] at hlen
  cases h with
  | free hlt => exact hlt
  | kicked =>
    rw [List.length_singleton] at hlen
    omega

theorem length_old (h : Room s c bottom o bottom₀ s₁ less) :
    o.length = if less = none then 0 else 1 := by
  cases h with
  | free => rfl
  | kicked => rfl

theorem getTop (h : Room s c bottom o bottom₀ s₁ less) : s₁.topDelegations = s.topDelegations := by
  cases h with
  | free => rfl
  | kicked => rfl

theorem getBottom (h : Room s c bottom o bottom₀ s₁ less) :
    s₁.bottomDelegations = s.bottomDelegations := by
  cases h with
  | free => rfl
  | kicked => rfl

end Room

section Runs
variable {m : CandidateMetadata} {s : State R} {c d : R.Account} {a : ℕ}
  {top bottom : Delegations R.Account} (hR : R.Placed) (hs : DelegatorsOk s)
  (htop : s.topDelegations.get c = some top) (hbottom : s.bottomDelegations.get c = some bottom)
  (hr : Ranked R top.delegations bottom.delegations) (hm : Mirrors R m top bottom)
  (hagree : ∀ x ∈ bottom.delegations, ⟨c, x.amount⟩ ∈ s.delegationsOf x.owner)

section Room
include hR hs hr hm hagree

/-- The lowest bottom delegation is kicked if the bottom list is full. -/
theorem makeRoom_run (bumped : Bool) : ∃ o bottom₀ s₁ less, Room s c bottom o bottom₀ s₁ less ∧
    CandidateMetadata.makeRoom bumped c bottom s =
      (.ok (bottom₀, decide (less = none) && !bumped), s₁) ∧
    less = if m.bottomCapacity = .full then some m.lowestBottomDelegationAmount else none := by
  have hmax := hR.maxBottom_pos
  have hle := hr.bottom_le
  rw [hm.bottomCapacity, hm.lowestBottom]
  by_cases hlen : bottom.delegations.length = R.maxBottomDelegationsPerCandidate
  · have hfull : bottom.bottomCapacity R = .full := capacity_full.mpr (Nat.le_of_eq hlen.symm)
    cases hlast : bottom.delegations.getLast? with
    | none =>
      rw [List.getLast?_eq_none_iff.mp hlast, List.length_nil] at hlen
      omega
    | some x =>
      obtain ⟨k, b⟩ := x
      obtain ⟨v, hkick⟩ := kick_run hs (hagree _ (List.mem_of_getLast? hlast))
      refine ⟨_, _, _, _, .kicked v hlast, ?_, ?_⟩
      · unfold CandidateMetadata.makeRoom
        rw [if_pos hlen, getExpect_bind hlast]
        exact (Tx.bind_run_of_ok hkick).trans rfl
      · rw [if_pos hfull, Delegations.lowestDelegationAmount, hlast]
        rfl
  · have hnot : bottom.bottomCapacity R ≠ .full := by
      intro hfull
      have hge := capacity_full.mp hfull
      omega
    refine ⟨_, _, _, _, .free (by omega), ?_, ?_⟩
    · unfold CandidateMetadata.makeRoom
      rw [if_neg hlen]
      rfl
    · rw [if_neg hnot]

end Room

/-- The metadata with one more delegation, unless one was kicked. -/
def CandidateMetadata.counted (m : CandidateMetadata) (less : Option ℕ) : CandidateMetadata :=
  { m with delegationCount := if less = none then m.delegationCount + 1 else m.delegationCount }

theorem CandidateMetadata.counted_eq (m : CandidateMetadata) (less : Option ℕ) :
    (if less = none then { m with delegationCount := m.delegationCount + 1 } else m) =
      m.counted less := by
  unfold CandidateMetadata.counted
  split_ifs <;> rfl

section Bottom
include hbottom

theorem addBottomDelegation_eq {bumped up : Bool} {bottom₀ bottom' : Delegations R.Account}
    {s₁ : State R} {x : Bond R.Account}
    (hroom : CandidateMetadata.makeRoom bumped c bottom s = (.ok (bottom₀, up), s₁))
    (hbottom' : bottom' = bottom₀.insertSortedGreatestToLeast x) :
    m.addBottomDelegation bumped c x s =
      (.ok ((if up then { m with delegationCount := m.delegationCount + 1 } else m).resetBottomData
        R bottom'), { s₁ with bottomDelegations := s₁.bottomDelegations.insert c bottom' }) := by
  unfold CandidateMetadata.addBottomDelegation
  rw [getExpect_bind hbottom, hbottom']
  exact (Tx.bind_run_of_ok hroom).trans rfl

end Bottom

/-- The delegation comes into the bottom list, or lets the lowest top delegation come there. -/
theorem Mirrors.counted {m₁ : CandidateMetadata} {top' bottom' bottom₀ : Delegations R.Account}
    {o : List (Bond R.Account)} {s₁ : State R} {less : Option ℕ}
    (hm : Mirrors R m top bottom) (hroom : Room s c bottom o bottom₀ s₁ less)
    (hcount : m₁.delegationCount = m.delegationCount)
    (htop' : top'.delegations.length + bottom'.delegations.length =
      top.delegations.length + bottom₀.delegations.length + 1) :
    (m₁.counted less).delegationCount = top'.delegations.length + bottom'.delegations.length := by
  have hold := hroom.length_old
  have hlen := hroom.perm.length_eq
  have hcounted := hm.count
  rw [List.length_append, hold] at hlen
  show (if less = none then m₁.delegationCount + 1 else m₁.delegationCount) = _
  split_ifs at hlen ⊢ <;> omega

end Runs

section Spec
variable {m : CandidateMetadata} {s s₁ : State R} {c d : R.Account} {a : ℕ} {less : Option ℕ}
  {top bottom bottom₀ : Delegations R.Account} {o : List (Bond R.Account)}
  (hr : Ranked R top.delegations bottom.delegations) (hm : Mirrors R m top bottom)
  (hroom : Room s c bottom o bottom₀ s₁ less)
  (hnew : ∀ x ∈ top.delegations ++ bottom.delegations, x.owner ≠ d) (hpos : 0 < a)
include hr hroom hnew hpos

theorem Ranked.of_add {top' bottom' : List (Bond R.Account)}
    (he : Exchange o [⟨d, a⟩] (top.delegations ++ bottom.delegations) (top' ++ bottom'))
    (htop : Descending top') (hbottom : Descending bottom')
    (hle : ∀ x ∈ top', ∀ y ∈ bottom', y.amount ≤ x.amount)
    (hfull : bottom' ≠ [] → top'.length = R.maxTopDelegationsPerCandidate)
    (htopLen : top'.length ≤ R.maxTopDelegationsPerCandidate)
    (hbottomLen : bottom'.length ≤ bottom₀.delegations.length + 1) : Ranked R top' bottom' := by
  have hlt := hroom.length_lt hr.bottom_le
  apply hr.of_exchange he
  · exact List.nodup_singleton _
  · intro x hx
    rw [List.mem_singleton.mp hx]
    exact hpos
  · intro x hx y hy hown
    rw [List.mem_singleton.mp hx] at hown
    exact absurd hown (hnew y hy)
  · exact htop
  · exact hbottom
  · exact hle
  · exact hfull
  · exact htopLen
  · omega

include hm

/-- The new delegation goes to the bottom list. -/
theorem relists_addBottom (hfull : top.topCapacity R = .full)
    (hle : a ≤ m.lowestTopDelegationAmount) :
    Relists m ((m.counted less).resetBottomData R (bottom₀.insertSortedGreatestToLeast ⟨d, a⟩)) top
      bottom top (bottom₀.insertSortedGreatestToLeast ⟨d, a⟩) o [⟨d, a⟩] ∧
    StaysExact bottom (bottom₀.insertSortedGreatestToLeast ⟨d, a⟩) := by
  have hsort := hroom.descending hr.bottom_sorted
  have hinsert := Delegations.insertSorted_length (x := ⟨d, a⟩) hsort
  have hge : R.maxTopDelegationsPerCandidate ≤ top.delegations.length := capacity_full.mp hfull
  have hmaxTop := hr.top_le
  have hbottomEx : Exchange o [⟨d, a⟩] bottom.delegations _ :=
    .of_perm hroom.perm (Delegations.insertSorted_perm hsort)
  have he := hbottomEx.append_left top.delegations
  refine ⟨⟨hr.of_add hroom hnew hpos he hr.top_sorted (Delegations.insertSorted_descending hsort)
    ?_ ?_ hmaxTop (Nat.le_of_eq hinsert), ⟨hm.lowestTop, rfl, rfl, hm.topCapacity,
    rfl, ?_⟩, he, rfl, rfl, rfl, fun _ hexact => hexact⟩, ?_⟩
  · intro x hx y hy
    have hlowest := lowest_le hr.top_sorted hx
    rw [← hm.lowestTop] at hlowest
    rcases (Delegations.mem_insertSorted hsort).mp hy with rfl | hy
    · exact Nat.le_trans hle hlowest
    · exact hr.le x hx y (hroom.perm.mem_iff.mpr (List.mem_append_right o hy))
  · intro _
    omega
  · exact hm.counted hroom rfl (by omega)
  · intro hbound hexact
    rw [Delegations.insertSorted_amounts hsort, Nat.add_comm] at hbound
    exact (hroom.exact hexact).insertSorted hsort hbound

/-- The new delegation goes to the top list, and the lowest one there to the bottom list. -/
theorem relists_addBump {low : Bond R.Account} (hfull : top.topCapacity R = .full)
    (hlast : top.delegations.getLast? = some low) (hlt : low.amount < a) :
    Relists m (((m.resetBottomData R (bottom₀.insertSortedGreatestToLeast low)).withTop R
        ((top.dropLowest low).insertSortedGreatestToLeast ⟨d, a⟩)).counted less) top bottom
      ((top.dropLowest low).insertSortedGreatestToLeast ⟨d, a⟩)
      (bottom₀.insertSortedGreatestToLeast low) o [⟨d, a⟩] ∧
    StaysExact bottom (bottom₀.insertSortedGreatestToLeast low) := by
  have hsort := hroom.descending hr.bottom_sorted
  have hsortTop := Delegations.dropLowest_descending (x := low) hr.top_sorted
  have hperm := Delegations.dropLowest_perm hlast
  have hlen := hperm.length_eq
  have hinsert := Delegations.insertSorted_length (x := low) hsort
  have hinsertTop := Delegations.insertSorted_length (x := ⟨d, a⟩) hsortTop
  have hge : R.maxTopDelegationsPerCandidate ≤ top.delegations.length := capacity_full.mp hfull
  have hmaxTop := hr.top_le
  have hlowMem := List.mem_of_getLast? hlast
  rw [List.length_cons] at hlen
  have htopEx : Exchange [low] [⟨d, a⟩] top.delegations _ :=
    .of_perm hperm (Delegations.insertSorted_perm hsortTop)
  have hbottomEx : Exchange o [low] bottom.delegations _ :=
    .of_perm hroom.perm (Delegations.insertSorted_perm hsort)
  have he : Exchange o [⟨d, a⟩] (top.delegations ++ bottom.delegations)
      (((top.dropLowest low).insertSortedGreatestToLeast ⟨d, a⟩).delegations ++
        (bottom₀.insertSortedGreatestToLeast low).delegations) :=
    (htopEx.append hbottomEx).cancel List.perm_append_comm (.refl _)
  refine ⟨⟨hr.of_add hroom hnew hpos he (Delegations.insertSorted_descending hsortTop)
    (Delegations.insertSorted_descending hsort) ?_ (fun _ => by omega) (by omega)
    (Nat.le_of_eq hinsert), ⟨rfl, rfl, rfl, rfl, rfl, ?_⟩, he, rfl, rfl, rfl, ?_⟩, ?_⟩
  · intro x hx y hy
    have hyle : y.amount ≤ low.amount := by
      rcases (Delegations.mem_insertSorted hsort).mp hy with rfl | hy
      · exact Nat.le_refl _
      · exact hr.le low hlowMem y (hroom.perm.mem_iff.mpr (List.mem_append_right o hy))
    rcases (Delegations.mem_insertSorted hsortTop).mp hx with rfl | hx
    · show y.amount ≤ a
      omega
    · exact Nat.le_trans hyle (hr.top_sorted.last_le hlast (Delegations.mem_of_dropLowest hx))
  · exact hm.counted hroom rfl (by omega)
  · intro hbound hexact
    rw [Delegations.insertSorted_amounts hsortTop, Nat.add_comm] at hbound
    exact (Delegations.Exact.of_perm hperm hexact).insertSorted hsortTop hbound
  · intro hbound hexact
    rw [Delegations.insertSorted_amounts hsort, Nat.add_comm] at hbound
    exact (hroom.exact hexact).insertSorted hsort hbound

end Spec
section Runs
variable {m : CandidateMetadata} {s : State R} {c d : R.Account} {a : ℕ}
  {top bottom : Delegations R.Account}

theorem addTopDelegation_eq {m₁ : CandidateMetadata} {top₀ top' : Delegations R.Account}
    {less : Option ℕ} {s₁ : State R} {x : Bond R.Account}
    (htop : s.topDelegations.get c = some top)
    (hbump : m.bumpLowestTop c top s = (.ok (m₁, top₀, less), s₁))
    (htop' : top' = top₀.insertSortedGreatestToLeast x) :
    m.addTopDelegation c x s = (.ok ((m₁.withTop R top').counted less, less), { s₁ with
      candidatePool := poolAfter s₁.candidatePool c m₁ (m₁.withTop R top')
      topDelegations := s₁.topDelegations.insert c top' }) := by
  unfold CandidateMetadata.addTopDelegation
  rw [getExpect_bind htop, htop', ← CandidateMetadata.counted_eq]
  refine (Tx.bind_run_of_ok hbump).trans ?_
  exact (Tx.bind_run_of_ok CandidateMetadata.resetTopData_run).trans rfl

variable (hR : R.Placed) (htop : s.topDelegations.get c = some top)
  (hbottom : s.bottomDelegations.get c = some bottom)
  (hr : Ranked R top.delegations bottom.delegations) (hm : Mirrors R m top bottom)
  (hnew : ∀ x ∈ top.delegations ++ bottom.delegations, x.owner ≠ d) (hpos : 0 < a)
  (hs : DelegatorsOk s)
  (hagree : ∀ x ∈ bottom.delegations, ⟨c, x.amount⟩ ∈ s.delegationsOf x.owner)
include hR htop hbottom hr hm hnew hpos

/-- What an accepted new delegation of `a` by `d` leaves. -/
def Added (s : State R) (c d : R.Account) (a : ℕ) (m : CandidateMetadata)
    (top bottom : Delegations R.Account) (less : Option ℕ) (m' : CandidateMetadata)
    (s' : State R) : Prop :=
  ∃ o bottom₀ s₁ top' bottom', Room s c bottom o bottom₀ s₁ less ∧
    s' = s₁.relist c m m' top' bottom' ∧ Relists m m' top bottom top' bottom' o [⟨d, a⟩] ∧
    StaysExact bottom bottom' ∧ ∀ b, less = some b → b < a

omit hR htop hbottom hr hm hnew hpos in
theorem Added.frame {less : Option ℕ} {m' : CandidateMetadata} {s' : State R}
    (h : Added s c d a m top bottom less m' s') :
    s'.total = s.total ∧ s'.candidateInfo = s.candidateInfo := by
  obtain ⟨o, bottom₀, s₁, top', bottom', hroom, rfl, _⟩ := h
  cases hroom with
  | free => exact ⟨rfl, rfl⟩
  | kicked => exact ⟨rfl, rfl⟩

omit hR hr hm hnew hpos in
/-- The lists after it, as a change of those before. -/
theorem Added.rework {less : Option ℕ} {m' : CandidateMetadata} {s' : State R}
    (h : Added s c d a m top bottom less m' s') (hinfo : s.candidateInfo.get c = some m) :
    ∃ o bottom₀ s₁, Room s c bottom o bottom₀ s₁ less ∧ ∃ w : Rework s c o [⟨d, a⟩],
      w.Stored { s' with candidateInfo := s.candidateInfo.insert c m' } ∧
      (s'.delegatorState = s₁.delegatorState ∧
        s'.delegationScheduledRequests = s₁.delegationScheduledRequests) ∧
      StaysExact w.bottom w.bottom' ∧ ∀ b, less = some b → b < a := by
  obtain ⟨o, bottom₀, s₁, top', bottom', hroom, rfl, hlists, hexact, hless⟩ := h
  refine ⟨o, bottom₀, s₁, hroom, ⟨m, m', top, bottom, top', bottom', hinfo, htop, hbottom, hlists⟩,
    ⟨rfl, ?_, ?_⟩, ⟨rfl, rfl⟩, hexact, hless⟩
  · show s₁.topDelegations.insert c top' = _
    rw [hroom.getTop]
    rfl
  · show s₁.bottomDelegations.insert c bottom' = _
    rw [hroom.getBottom]
    rfl

/-- There is room at the top. -/
theorem addTopDelegation_free (hcap : m.topCapacity ≠ .full) : ∃ m' s',
    m.addTopDelegation c ⟨d, a⟩ s = (.ok (m', none), s') ∧
      Added s c d a m top bottom none m' s' := by
  have hlt : top.delegations.length < R.maxTopDelegationsPerCandidate := by
    rw [hm.topCapacity] at hcap
    by_contra hge
    exact hcap (capacity_full.mpr (Nat.not_lt.mp hge))
  have hnil : bottom.delegations = [] := by
    by_contra hne
    have hfull := hr.full hne
    omega
  have hroom : Room s c bottom [] bottom s none := by
    apply Room.free
    rw [hnil]
    exact hR.maxBottom_pos
  have hbump : m.bumpLowestTop c top s = (.ok (m, top, none), s) := by
    unfold CandidateMetadata.bumpLowestTop
    rw [if_neg (Nat.ne_of_lt hlt)]
    rfl
  have hinsert := Delegations.insertSorted_length (x := ⟨d, a⟩) hr.top_sorted
  have htopEx := Exchange.insert (Delegations.insertSorted_perm (x := ⟨d, a⟩) hr.top_sorted)
  have he := htopEx.append_right bottom.delegations
  refine ⟨_, _, addTopDelegation_eq htop hbump rfl, [], bottom, s, _, bottom, hroom, ?_,
    ⟨hr.of_add hroom hnew hpos he (Delegations.insertSorted_descending hr.top_sorted)
      hr.bottom_sorted ?_ (fun hne => absurd hnil hne) (by omega) (Nat.le_succ _),
      ⟨rfl, hm.highestBottom, hm.lowestBottom, rfl, hm.bottomCapacity, ?_⟩, he, rfl, rfl, rfl, ?_⟩,
    fun _ hexact => hexact, by simp⟩
  · rw [State.relist, insert_of_get hbottom]
    rfl
  · intro x _ y hy
    rw [hnil] at hy
    cases hy
  · exact hm.counted hroom rfl (by omega)
  · intro hbound hexact
    rw [Delegations.insertSorted_amounts hr.top_sorted, Nat.add_comm] at hbound
    exact hexact.insertSorted hr.top_sorted hbound

include hs hagree

/-- The top list is full, and the new delegation is above the lowest one there. -/
theorem addTopDelegation_bump (hfull : top.topCapacity R = .full)
    (hlt : m.lowestTopDelegationAmount < a) : ∃ less m' s',
    m.addTopDelegation c ⟨d, a⟩ s = (.ok (m', less), s') ∧
      Added s c d a m top bottom less m' s' := by
  have hge : R.maxTopDelegationsPerCandidate ≤ top.delegations.length := capacity_full.mp hfull
  have hlen := Nat.le_antisymm hr.top_le hge
  obtain ⟨low, hlast, hlow⟩ := hm.last_of_top hR hlen
  rw [hlow] at hlt
  obtain ⟨o, bottom₀, s₁, less, hroom, hrun, hless⟩ := makeRoom_run hR hs hr hm hagree true
  rw [Bool.not_true, Bool.and_false] at hrun
  have hbump : m.bumpLowestTop c top s =
      (.ok (m.resetBottomData R (bottom₀.insertSortedGreatestToLeast low), top.dropLowest low,
        less), { s₁ with bottomDelegations :=
          s₁.bottomDelegations.insert c (bottom₀.insertSortedGreatestToLeast low) }) := by
    unfold CandidateMetadata.bumpLowestTop
    rw [if_pos hlen, getExpect_bind hlast, hless]
    exact (Tx.bind_run_of_ok (addBottomDelegation_eq hbottom hrun rfl)).trans rfl
  have ⟨hlists, hexact⟩ := relists_addBump hr hm hroom hnew hpos hfull hlast hlt
  refine ⟨less, _, _, addTopDelegation_eq htop hbump rfl, o, bottom₀, s₁, _, _, hroom, rfl,
    hlists, hexact, ?_⟩
  intro b hb
  cases hroom with
  | free => cases hb
  | kicked v hlast' =>
    obtain rfl := Option.some.inj hb
    have hle := hr.le low (List.mem_of_getLast? hlast) _ (List.mem_of_getLast? hlast')
    exact Nat.lt_of_le_of_lt hle hlt

theorem addDelegation_ok {r : CandidateMetadata × Option ℕ} {s' : State R}
    (h : m.addDelegation c ⟨d, a⟩ s = (.ok r, s')) : Added s c d a m top bottom r.2 r.1 s' := by
  unfold CandidateMetadata.addDelegation at h
  by_cases hfull : m.topCapacity = .full
  · have hfull' := hfull
    rw [hm.topCapacity] at hfull'
    rw [if_pos hfull] at h
    by_cases hlt : m.lowestTopDelegationAmount < a
    · obtain ⟨less, m', s₁, hrun, hadded⟩ :=
        addTopDelegation_bump hR htop hbottom hr hm hnew hpos hs hagree hfull' hlt
      rw [if_pos hlt, hrun] at h
      obtain ⟨hr', rfl⟩ := Prod.mk.inj h
      obtain rfl := Exec.ok.inj hr'
      exact hadded
    · rw [if_neg hlt] at h
      obtain ⟨o, bottom₀, s₁, less, hroom, hrun, hless⟩ := makeRoom_run hR hs hr hm hagree false
      rw [Bool.not_false, Bool.and_true] at hrun
      have hadd := addBottomDelegation_eq (m := m) (x := ⟨d, a⟩) hbottom hrun rfl
      simp only [decide_eq_true_eq] at hadd
      rw [CandidateMetadata.counted_eq] at hadd
      have ⟨hlists, hexact⟩ := relists_addBottom hr hm hroom hnew hpos hfull' (Nat.not_lt.mp hlt)
      have hdone : ∀ {s₂ : State R}, (m.addBottomDelegation false c ⟨d, a⟩ >>= fun m' =>
          pure (m', if m.bottomCapacity = .full then some m.lowestBottomDelegationAmount
            else none)) s = (.ok r, s₂) → (∀ b, less = some b → b < a) →
          Added s c d a m top bottom r.2 r.1 s₂ := by
        intro s₂ hrun' hlow
        rw [Tx.bind_run_of_ok hadd, ← hless] at hrun'
        obtain ⟨hr', rfl⟩ := Prod.mk.inj hrun'
        obtain rfl := Exec.ok.inj hr'
        refine ⟨o, bottom₀, s₁, top, _, hroom, ?_, hlists, hexact, hlow⟩
        have hgetTop : s₁.topDelegations.get c = some top := by
          rw [hroom.getTop]
          exact htop
        have hpool : ∀ bottom', poolAfter s₁.candidatePool c m
            ((m.counted less).resetBottomData R bottom') = s₁.candidatePool :=
          fun _ => poolAfter_same rfl
        rw [State.relist, insert_of_get hgetTop, hpool]
      by_cases hcap : m.bottomCapacity = .full
      · rw [if_pos hcap] at h hless
        by_cases hlow : a > m.lowestBottomDelegationAmount
        · rw [ensure_bind (decide_eq_true hlow)] at h
          apply hdone h
          intro b hb
          rw [hless] at hb
          obtain rfl := Option.some.inj hb
          exact hlow
        · rw [ensure_bind_false (decide_eq_false hlow)] at h
          cases h
      · rw [if_neg hcap] at h hless
        apply hdone h
        intro b hb
        rw [hless] at hb
        cases hb
  · obtain ⟨m', s₁, hrun, hadded⟩ :=
      addTopDelegation_free hR htop hbottom hr hm hnew hpos hfull
    rw [if_neg hfull, Tx.bind_run_of_ok hrun] at h
    obtain ⟨hr', rfl⟩ := Prod.mk.inj h
    obtain rfl := Exec.ok.inj hr'
    exact hadded

end Runs
end Staking
end ZkNft
