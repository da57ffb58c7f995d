import ZkNft.Staking.Candidate

/-! What an increase or a decrease of a delegation does to the lists of a candidate. -/

namespace ZkNft
namespace Staking
open BinarySearch Keyed StorageMap

variable {R : Runtime}

section Adjusted
variable {list : Delegations R.Account} {d : R.Account} {a : ℕ}

/-- The list with the amount of `d` changed by `f`, in order again. -/
def Delegations.adjusted (list : Delegations R.Account) (f : ℕ → ℕ) (d : R.Account) (total : ℕ) :
    Delegations R.Account :=
  (⟨CandidateMetadata.adjust f d list.delegations, total⟩ :
    Delegations R.Account).sortGreatestToLeast

theorem adjusted_exchange (hone : OneEach list.delegations) (hx : ⟨d, a⟩ ∈ list.delegations)
    (f : ℕ → ℕ) (total : ℕ) :
    Exchange [⟨d, a⟩] [⟨d, f a⟩] list.delegations (list.adjusted f d total).delegations :=
  (Exchange.map hone hx fun y => ⟨y.owner, f y.amount⟩).perm_right Delegations.sort_perm

theorem adjusted_length (hone : OneEach list.delegations) (hx : ⟨d, a⟩ ∈ list.delegations)
    (f : ℕ → ℕ) (total : ℕ) :
    (list.adjusted f d total).delegations.length = list.delegations.length := by
  have hlen := (adjusted_exchange hone hx f total).length
  simpa using hlen

theorem adjusted_amounts (hone : OneEach list.delegations) (hx : ⟨d, a⟩ ∈ list.delegations)
    (f : ℕ → ℕ) (total : ℕ) :
    amounts (list.adjusted f d total).delegations + a = amounts list.delegations + f a := by
  have hsum := (adjusted_exchange hone hx f total).sum Bond.amount
  simpa [amounts] using hsum

theorem mem_adjusted (hone : OneEach list.delegations) (hx : ⟨d, a⟩ ∈ list.delegations)
    {f : ℕ → ℕ} {total : ℕ} {y : Bond R.Account}
    (hy : y ∈ (list.adjusted f d total).delegations) : y = ⟨d, f a⟩ ∨ y ∈ list.delegations := by
  rcases ((adjusted_exchange hone hx f total).mem_iff hone).mp hy with hy | ⟨hy, -⟩
  · exact .inl (List.mem_singleton.mp hy)
  · exact .inr hy

end Adjusted

section Runs
variable {m : CandidateMetadata} {s : State R} {c d : R.Account} {a more less : ℕ}
  {h low : Bond R.Account} {top bottom : Delegations R.Account}

theorem poolAfter_same {pool : List (Bond R.Account)} {m' : CandidateMetadata}
    (h : m'.totalCounted = m.totalCounted) : poolAfter pool c m m' = pool :=
  if_neg fun hchange => hchange.1 h.symm

theorem increaseTopDelegation_none (htop : s.topDelegations.get c = some top)
    (hx : ∀ x ∈ top.delegations, x.owner ≠ d) :
    m.increaseTopDelegation c d more s = (.err (.module .delegationDNE), s) := by
  unfold CandidateMetadata.increaseTopDelegation
  rw [getExpect_bind htop, ensure_bind_false (hasOwner_false hx)]

theorem lowerInTop_run (hx : ⟨d, a⟩ ∈ top.delegations) :
    CandidateMetadata.lowerInTop d less top s =
      (.ok (top.adjusted (· - less) d (top.total - less)), s) := by
  rw [CandidateMetadata.lowerInTop, ensure_bind (hasOwner_true hx)]
  rfl

variable (htop : s.topDelegations.get c = some top)
  (hbottom : s.bottomDelegations.get c = some bottom)
include htop hbottom

theorem increaseTopDelegation_eq {top' : Delegations R.Account} (hx : ⟨d, a⟩ ∈ top.delegations)
    (htop' : top' = top.adjusted (satAdd · more) d (satAdd top.total more)) :
    m.increaseTopDelegation c d more s =
      (.ok (m.withTop R top'), s.relist c m (m.withTop R top') top' bottom) := by
  unfold CandidateMetadata.increaseTopDelegation
  rw [getExpect_bind htop, ensure_bind (hasOwner_true hx)]
  refine (Tx.bind_run_of_ok CandidateMetadata.resetTopData_run).trans ?_
  rw [modify_bind, State.relist, insert_of_get hbottom, htop']
  rfl

/-- The delegation stays in the bottom list. -/
theorem increaseBottomDelegation_stay {bottom' : Delegations R.Account}
    (hx : ⟨d, a⟩ ∈ bottom.delegations) (hle : satAdd a more ≤ m.lowestTopDelegationAmount)
    (hbottom' : bottom' = bottom.adjusted (satAdd · more) d (satAdd bottom.total more)) :
    m.increaseBottomDelegation c d a more s = (.ok (m.resetBottomData R bottom'),
      s.relist c m (m.resetBottomData R bottom') top bottom') := by
  unfold CandidateMetadata.increaseBottomDelegation
  rw [getOr_bind hbottom, if_neg (Nat.not_lt.mpr hle)]
  have hraise : CandidateMetadata.raiseInBottom d more bottom s = (.ok bottom', s) := by
    rw [CandidateMetadata.raiseInBottom, ensure_bind (hasOwner_true hx), hbottom']
    rfl
  have hpool : poolAfter s.candidatePool c m (m.resetBottomData R bottom') = s.candidatePool :=
    poolAfter_same rfl
  rw [State.relist, insert_of_get htop, hpool]
  exact (Tx.bind_run_of_ok hraise).trans rfl

/-- The delegation goes to the top list, which is full, in place of the lowest there. -/
theorem increaseBottomDelegation_raise {top' bottom' : Delegations R.Account}
    {m' : CandidateMetadata} (hone : OneEach bottom.delegations)
    (hx : ⟨d, a⟩ ∈ bottom.delegations) (hlt : m.lowestTopDelegationAmount < satAdd a more)
    (hfull : top.topCapacity R = .full) (hlow : top.delegations.getLast? = some low)
    (htop' : top' = (top.dropLowest low).insertSortedGreatestToLeast ⟨d, satAdd a more⟩)
    (hbottom' : bottom' = (bottom.without d a).insertSortedGreatestToLeast low)
    (hm' : m' = (m.withTop R top').resetBottomData R bottom') :
    m.increaseBottomDelegation c d a more s = (.ok m', s.relist c m m' top' bottom') := by
  unfold CandidateMetadata.increaseBottomDelegation
  rw [getOr_bind hbottom, if_pos hlt]
  have hswap : CandidateMetadata.swapLowestTop top (bottom.without d a) s =
      (.ok (top.dropLowest low, bottom'), s) := by
    rw [CandidateMetadata.swapLowestTop, if_pos hfull, getExpect_bind hlow, hbottom']
    rfl
  have hraise : m.raiseToTop c d a more bottom s = (.ok (m.withTop R top', bottom'),
      { s with
        topDelegations := s.topDelegations.insert c top'
        candidatePool := poolAfter s.candidatePool c m (m.withTop R top') }) := by
    unfold CandidateMetadata.raiseToTop
    rw [getOr_bind (actualAmount_some hone hx), getExpect_bind htop]
    refine (Tx.bind_run_of_ok hswap).trans ?_
    rw [htop']
    exact (Tx.bind_run_of_ok CandidateMetadata.resetTopData_run).trans rfl
  rw [State.relist, hm']
  exact (Tx.bind_run_of_ok hraise).trans rfl

/-- The delegation stays in the top list. -/
theorem decreaseTopDelegation_stay {top' : Delegations R.Account} (hx : ⟨d, a⟩ ∈ top.delegations)
    (hstay : ¬ (a - less < m.highestBottomDelegationAmount ∧ m.topCapacity = .full ∧
      m.bottomCapacity ≠ .empty))
    (htop' : top' = top.adjusted (· - less) d (top.total - less)) :
    m.decreaseTopDelegation c d a less s =
      (.ok (m.withTop R top'), s.relist c m (m.withTop R top') top' bottom) := by
  unfold CandidateMetadata.decreaseTopDelegation
  rw [getOr_bind htop, if_neg hstay, State.relist, insert_of_get hbottom, htop']
  refine (Tx.bind_run_of_ok (lowerInTop_run hx)).trans ?_
  exact (Tx.bind_run_of_ok CandidateMetadata.resetTopData_run).trans rfl

/-- The delegation changes places with the highest bottom one. -/
theorem decreaseTopDelegation_lower {top' bottom' : Delegations R.Account}
    {m' : CandidateMetadata} (hone : OneEach top.delegations) (hx : ⟨d, a⟩ ∈ top.delegations)
    (hlower : a - less < m.highestBottomDelegationAmount ∧ m.topCapacity = .full ∧
      m.bottomCapacity ≠ .empty)
    (hhead : bottom.delegations.head? = some h)
    (htop' : top' = (top.without d a).insertSortedGreatestToLeast h)
    (hbottom' : bottom' = (bottom.dropHighest h).insertSortedGreatestToLeast ⟨d, a - less⟩)
    (hm' : m' = (m.resetBottomData R bottom').withTop R top') :
    m.decreaseTopDelegation c d a less s = (.ok m', s.relist c m m' top' bottom') := by
  unfold CandidateMetadata.decreaseTopDelegation
  rw [getOr_bind htop, if_pos hlower]
  have hrun : m.lowerToBottom c d less top s = (.ok (m.resetBottomData R bottom', top'),
      { s with bottomDelegations := s.bottomDelegations.insert c bottom' }) := by
    unfold CandidateMetadata.lowerToBottom
    rw [getOr_bind (actualAmount_some hone hx), getExpect_bind hbottom, hhead, htop', hbottom']
    rfl
  refine (Tx.bind_run_of_ok hrun).trans ?_
  refine (Tx.bind_run_of_ok CandidateMetadata.resetTopData_run).trans ?_
  rw [modify_bind, State.relist, hm']
  rfl

theorem decreaseBottomDelegation_eq {bottom' : Delegations R.Account}
    (hx : ⟨d, a⟩ ∈ bottom.delegations)
    (hbottom' : bottom' = bottom.adjusted (· - less) d bottom.total) :
    m.decreaseBottomDelegation c d less s = (.ok (m.resetBottomData R bottom'),
      s.relist c m (m.resetBottomData R bottom') top bottom') := by
  unfold CandidateMetadata.decreaseBottomDelegation
  have hpool : poolAfter s.candidatePool c m (m.resetBottomData R bottom') = s.candidatePool :=
    poolAfter_same rfl
  rw [getExpect_bind hbottom, ensure_bind (hasOwner_true hx), State.relist, insert_of_get htop,
    hpool, hbottom']
  rfl

end Runs

theorem decreaseTopDelegation_none {m : CandidateMetadata} {s : State R} {c d : R.Account}
    {a less : ℕ} {top : Delegations R.Account} (htop : s.topDelegations.get c = some top)
    (hx : ∀ x ∈ top.delegations, x.owner ≠ d) :
    m.decreaseTopDelegation c d a less s = (.err (.module .delegationDNE), s) := by
  unfold CandidateMetadata.decreaseTopDelegation
  rw [getOr_bind htop]
  split_ifs
  · have hrun : m.lowerToBottom c d less top s = (.err (.module .delegationDNE), s) := by
      unfold CandidateMetadata.lowerToBottom
      rw [getOr_bind_none (actualAmount_none hx)]
    rw [Tx.bind_run, Tx.bind, hrun]
  · have hrun : CandidateMetadata.lowerInTop d less top s =
        (.err (.module .delegationDNE), s) := by
      rw [CandidateMetadata.lowerInTop, ensure_bind_false (hasOwner_false hx)]
    rw [Tx.bind_run, Tx.bind, hrun]

/-- The total of an exact list goes up with an amount in it. -/
theorem exact_increased {list : Delegations R.Account} {d : R.Account} {a more : ℕ}
    (hone : OneEach list.delegations) (hx : ⟨d, a⟩ ∈ list.delegations)
    (hadd : satAdd a more = a + more) :
    StaysExact list (list.adjusted (satAdd · more) d (satAdd list.total more)) := by
  intro hbound hexact
  have hsum : _ + a = _ + satAdd a more :=
    adjusted_amounts hone hx (satAdd · more) (satAdd list.total more)
  show satAdd list.total more = _
  have htotal : list.total = amounts list.delegations := hexact
  have htotal' : satAdd list.total more = list.total + more := satAdd_eq (by omega)
  omega

/-- The total of an exact list goes down with an amount in it. -/
theorem exact_decreased {list : Delegations R.Account} {d : R.Account} {a less : ℕ}
    (hone : OneEach list.delegations) (hx : ⟨d, a⟩ ∈ list.delegations) (hless : less ≤ a) :
    StaysExact list (list.adjusted (· - less) d (list.total - less)) := by
  intro _ hexact
  have hsum : _ + a = _ + (a - less) :=
    adjusted_amounts hone hx (· - less) (list.total - less)
  show list.total - less = _
  have htotal : list.total = amounts list.delegations := hexact
  omega

section Spec
variable {m : CandidateMetadata} {s : State R} {c d : R.Account} {a b : ℕ} (f : ℕ → ℕ) (total : ℕ)
  {top bottom : Delegations R.Account} (hr : Ranked R top.delegations bottom.delegations)
include hr

/-- Lists in which the delegation of `d` has another amount are ranked if their order is right. -/
theorem Ranked.of_change {top' bottom' : List (Bond R.Account)}
    (he : Exchange [⟨d, a⟩] [⟨d, b⟩] (top.delegations ++ bottom.delegations) (top' ++ bottom'))
    (hb : 0 < b) (htop : Descending top') (hbottom : Descending bottom')
    (hle : ∀ x ∈ top', ∀ y ∈ bottom', y.amount ≤ x.amount)
    (htopLen : top'.length = top.delegations.length)
    (hbottomLen : bottom'.length = bottom.delegations.length) : Ranked R top' bottom' := by
  have hmaxTop := hr.top_le
  have hmaxBottom := hr.bottom_le
  apply hr.of_exchange he
  · exact List.nodup_singleton _
  · intro x hx
    rw [List.mem_singleton.mp hx]
    exact hb
  · intro x hx y _ _
    rw [List.mem_singleton.mp hx]
    exact ⟨_, List.mem_singleton_self _, rfl⟩
  · exact htop
  · exact hbottom
  · exact hle
  · intro hne
    rw [htopLen]
    apply hr.full
    intro hnil
    rw [hnil] at hbottomLen
    exact hne (List.length_eq_zero_iff.mp hbottomLen)
  · omega
  · omega

variable (hm : Mirrors R m top bottom)
include hm

/-- The amount of a top delegation changes, and it stays in the top list. -/
theorem relists_adjustTop (hx : ⟨d, a⟩ ∈ top.delegations) (hpos : 0 < f a)
    (hge : ∀ y ∈ bottom.delegations, y.amount ≤ f a)
    (hexact : StaysExact top (top.adjusted f d total)) :
    Relists m (m.withTop R (top.adjusted f d total)) top bottom (top.adjusted f d total) bottom
      [⟨d, a⟩] [⟨d, f a⟩] := by
  have hone := hr.oneEach_top
  have hlen := adjusted_length hone hx f total
  have he := (adjusted_exchange hone hx f total).append_right bottom.delegations
  have hcount := hm.count
  refine ⟨hr.of_change he hpos Delegations.sort_descending hr.bottom_sorted ?_ hlen rfl,
    ⟨rfl, hm.highestBottom, hm.lowestBottom, rfl, hm.bottomCapacity, ?_⟩, he, rfl, rfl, rfl, hexact⟩
  · intro x hxmem y hy
    rcases mem_adjusted hone hx hxmem with rfl | hxmem
    · exact hge y hy
    · exact hr.le x hxmem y hy
  · show m.delegationCount = _
    omega

/-- The amount of a bottom delegation changes, and it stays in the bottom list. -/
theorem relists_adjustBottom (hx : ⟨d, a⟩ ∈ bottom.delegations) (hpos : 0 < f a)
    (hle : ∀ x ∈ top.delegations, f a ≤ x.amount) :
    Relists m (m.resetBottomData R (bottom.adjusted f d total)) top bottom top
      (bottom.adjusted f d total) [⟨d, a⟩] [⟨d, f a⟩] := by
  have hone := hr.oneEach_bottom
  have hlen := adjusted_length hone hx f total
  have he := (adjusted_exchange hone hx f total).append_left top.delegations
  have hcount := hm.count
  refine ⟨hr.of_change he hpos hr.top_sorted Delegations.sort_descending ?_ rfl hlen,
    ⟨hm.lowestTop, rfl, rfl, hm.topCapacity, rfl, ?_⟩, he, rfl, rfl, rfl, fun _ hexact => hexact⟩
  · intro x hxmem y hy
    rcases mem_adjusted hone hx hy with rfl | hy
    · exact hle x hxmem
    · exact hr.le x hxmem y hy
  · show m.delegationCount = _
    omega

/-- Each list gives one entry away and gets one: between them they keep `z` and give `⟨d, b⟩` for
`⟨d, a⟩`. -/
theorem relists_swap {x y z x' y' : Bond R.Account} {top₀ bottom₀ : Delegations R.Account}
    (htop : top.delegations.Perm (x :: top₀.delegations)) (hsort : Descending top₀.delegations)
    (hbottom : bottom.delegations.Perm (y :: bottom₀.delegations))
    (hsort' : Descending bottom₀.delegations)
    (ho : [x, y].Perm [⟨d, a⟩, z]) (hn : [x', y'].Perm [⟨d, b⟩, z]) (hb : 0 < b)
    (hxy : y'.amount ≤ x'.amount) (hy' : ∀ u ∈ top₀.delegations, y'.amount ≤ u.amount)
    (hx' : ∀ u ∈ bottom₀.delegations, u.amount ≤ x'.amount)
    (hexact : top.Exact → top₀.Exact) (hexact' : bottom.Exact → bottom₀.Exact) :
    Relists m ((m.resetBottomData R (bottom₀.insertSortedGreatestToLeast y')).withTop R
        (top₀.insertSortedGreatestToLeast x')) top bottom (top₀.insertSortedGreatestToLeast x')
      (bottom₀.insertSortedGreatestToLeast y') [⟨d, a⟩] [⟨d, b⟩] ∧
    StaysExact bottom (bottom₀.insertSortedGreatestToLeast y') := by
  have hlen := (Delegations.insertSorted_length (x := x') hsort).trans htop.length_eq.symm
  have hlen' := (Delegations.insertSorted_length (x := y') hsort').trans hbottom.length_eq.symm
  have hcount := hm.count
  have htopEx : Exchange [x] [x'] _ _ := .of_perm htop (Delegations.insertSorted_perm hsort)
  have hbottomEx : Exchange [y] [y'] _ _ := .of_perm hbottom (Delegations.insertSorted_perm hsort')
  have he : Exchange [⟨d, a⟩] [⟨d, b⟩] (top.delegations ++ bottom.delegations)
      ((top₀.insertSortedGreatestToLeast x').delegations ++
        (bottom₀.insertSortedGreatestToLeast y').delegations) :=
    (htopEx.append hbottomEx).cancel ho hn
  refine ⟨⟨hr.of_change he hb (Delegations.insertSorted_descending hsort)
    (Delegations.insertSorted_descending hsort') ?_ hlen hlen', ⟨rfl, rfl, rfl, rfl, rfl, ?_⟩, he,
    rfl, rfl, rfl, ?_⟩, ?_⟩
  · intro u hu v hv
    rcases (Delegations.mem_insertSorted hsort).mp hu with rfl | hu
    · rcases (Delegations.mem_insertSorted hsort').mp hv with rfl | hv
      · exact hxy
      · exact hx' v hv
    · rcases (Delegations.mem_insertSorted hsort').mp hv with rfl | hv
      · exact hy' u hu
      · have humem := htop.mem_iff.mpr (List.mem_cons_of_mem _ hu)
        have hvmem := hbottom.mem_iff.mpr (List.mem_cons_of_mem _ hv)
        exact hr.le u humem v hvmem
  · show m.delegationCount = _
    omega
  · intro hbound h
    rw [Delegations.insertSorted_amounts hsort] at hbound
    apply (hexact h).insertSorted hsort
    omega
  · intro hbound h
    rw [Delegations.insertSorted_amounts hsort'] at hbound
    apply (hexact' h).insertSorted hsort'
    omega

end Spec

section Runs
variable {m : CandidateMetadata} {s : State R} {c d : R.Account} {a more less : ℕ}
  {top bottom : Delegations R.Account} (hR : R.Placed)
  (htop : s.topDelegations.get c = some top) (hbottom : s.bottomDelegations.get c = some bottom)
  (hr : Ranked R top.delegations bottom.delegations) (hm : Mirrors R m top bottom)
include hR htop hbottom hr hm

theorem increaseBottomDelegation_run (hx : ⟨d, a⟩ ∈ bottom.delegations)
    (hroom : a + more ≤ maxBalance) : ∃ m' top' bottom',
    m.increaseBottomDelegation c d a more s = (.ok m', s.relist c m m' top' bottom') ∧
      Relists m m' top bottom top' bottom' [⟨d, a⟩] [⟨d, a + more⟩] ∧
      StaysExact bottom bottom' := by
  have hadd : satAdd a more = a + more := satAdd_eq hroom
  have hpos : 0 < a := hr.pos _ (List.mem_append_right _ hx)
  have hone := hr.oneEach_bottom
  have hfull := hr.full (List.ne_nil_of_mem hx)
  by_cases hlt : m.lowestTopDelegationAmount < satAdd a more
  · obtain ⟨low, hlast, hlow⟩ := hm.last_of_top hR hfull
    have hlowMem := List.mem_of_getLast? hlast
    have hcap : top.topCapacity R = .full := capacity_full.mpr (Nat.le_of_eq hfull.symm)
    have hrun := increaseBottomDelegation_raise htop hbottom hone hx hlt hcap hlast rfl rfl rfl
    rw [hadd] at hrun
    refine ⟨_, _, _, hrun, ?_⟩
    apply relists_swap hr hm (Delegations.dropLowest_perm hlast)
      (Delegations.dropLowest_descending hr.top_sorted) (Delegations.without_perm hone hx)
      (Delegations.without_descending hr.bottom_sorted) (.swap _ _ _) (.refl _)
    · show 0 < a + more
      exact Nat.add_pos_left hpos more
    · show low.amount ≤ a + more
      omega
    · exact fun u hu => hr.top_sorted.last_le hlast (Delegations.mem_of_dropLowest hu)
    · intro u hu
      have hule := hr.le low hlowMem u (Delegations.mem_of_without hu)
      show u.amount ≤ a + more
      omega
    · exact .of_perm (Delegations.dropLowest_perm hlast)
    · exact .without hone hx
  · have hrun := increaseBottomDelegation_stay htop hbottom hx (Nat.not_lt.mp hlt) rfl
    have hbelow : ∀ x ∈ top.delegations, satAdd a more ≤ x.amount := by
      intro x hxmem
      have hlow := lowest_le hr.top_sorted hxmem
      rw [← hm.lowestTop] at hlow
      omega
    have hlists := relists_adjustBottom (satAdd · more) (satAdd bottom.total more) hr hm hx
      (by simp only [hadd]; omega) hbelow
    simp only [hadd] at hlists
    exact ⟨_, _, _, hrun, hlists, exact_increased hone hx hadd⟩

theorem increaseDelegation_run (hx : ⟨d, a⟩ ∈ top.delegations ++ bottom.delegations)
    (hroom : a + more ≤ maxBalance) : ∃ m' top' bottom',
    m.increaseDelegation c d a more s = (.ok m', s.relist c m m' top' bottom') ∧
      Relists m m' top bottom top' bottom' [⟨d, a⟩] [⟨d, a + more⟩] ∧
      StaysExact bottom bottom' := by
  have hadd : satAdd a more = a + more := satAdd_eq hroom
  have hpos : 0 < a := hr.pos _ hx
  rcases List.mem_append.mp hx with hx | hx
  · have hrun : m.increaseTopDelegation c d more s = _ :=
      increaseTopDelegation_eq htop hbottom hx rfl
    have hexact := exact_increased hr.oneEach_top hx hadd
    have habove : ∀ y ∈ bottom.delegations, y.amount ≤ satAdd a more := by
      intro y hy
      have hle : y.amount ≤ a := hr.le _ hx y hy
      omega
    have hlists := relists_adjustTop (satAdd · more) (satAdd top.total more) hr hm hx
      (by simp only [hadd]; omega) habove hexact
    simp only [hadd] at hlists
    exact ⟨_, _, _, route_top (hm.top_routed hr hx) hrun, hlists, fun _ hexact => hexact⟩
  · obtain ⟨m', top', bottom', hrun, hlists⟩ :=
      increaseBottomDelegation_run hR htop hbottom hr hm hx hroom
    have hnone : m.increaseTopDelegation c d more s = _ :=
      increaseTopDelegation_none htop fun y hy => hr.ne_of_mem hy hx
    exact ⟨m', top', bottom', route_bottom (hm.bottom_routed hR hr hx) hnone hrun, hlists⟩

theorem decreaseTopDelegation_run (hx : ⟨d, a⟩ ∈ top.delegations) (hless : less < a) :
    ∃ m' top' bottom',
      m.decreaseTopDelegation c d a less s = (.ok m', s.relist c m m' top' bottom') ∧
        Relists m m' top bottom top' bottom' [⟨d, a⟩] [⟨d, a - less⟩] ∧
        StaysExact bottom bottom' := by
  have hone := hr.oneEach_top
  have hpos : 0 < a - less := Nat.sub_pos_of_lt hless
  by_cases hlower : a - less < m.highestBottomDelegationAmount ∧ m.topCapacity = .full ∧
      m.bottomCapacity ≠ .empty
  · obtain ⟨h, hhead, hhigh⟩ := hm.head_of_bottom hR hlower.2.2
    have hrun := decreaseTopDelegation_lower htop hbottom hone hx hlower hhead rfl rfl rfl
    have hlt : a - less < h.amount := by
      rw [← hhigh]
      exact hlower.1
    refine ⟨_, _, _, hrun, ?_⟩
    apply relists_swap hr hm (Delegations.without_perm hone hx)
      (Delegations.without_descending hr.top_sorted) (Delegations.dropHighest_perm hhead)
      (Delegations.dropHighest_descending hr.bottom_sorted) (.refl _) (.swap _ _ _) hpos
    · exact Nat.le_of_lt hlt
    · intro u hu
      have hle := hr.le u (Delegations.mem_of_without hu) h (List.mem_of_head? hhead)
      show a - less ≤ u.amount
      omega
    · exact fun u hu => hr.bottom_sorted.le_head hhead (Delegations.mem_of_dropHighest hu)
    · exact .without hone hx
    · exact .of_perm (Delegations.dropHighest_perm hhead)
  · have hrun := decreaseTopDelegation_stay htop hbottom hx hlower rfl
    refine ⟨_, _, _, hrun, ?_, fun _ hexact => hexact⟩
    apply relists_adjustTop (· - less) (top.total - less) hr hm hx hpos
    · intro y hy
      have hne := List.ne_nil_of_mem hy
      have hfull : m.topCapacity = .full := by
        rw [hm.topCapacity]
        exact capacity_full.mpr (Nat.le_of_eq (hr.full hne).symm)
      have hnonempty : m.bottomCapacity ≠ .empty := by
        rw [hm.bottomCapacity]
        exact fun hempty => hne ((capacity_empty hR.maxBottom_pos).mp hempty)
      have hhigh := le_highest hr.bottom_sorted hy
      rw [← hm.highestBottom] at hhigh
      by_contra hlt
      exact hlower ⟨by omega, hfull, hnonempty⟩
    · exact exact_decreased hone hx (Nat.le_of_lt hless)

/-- A decrease of a bottom delegation leaves the total of the bottom list as it is. -/
theorem decreaseDelegation_run (hx : ⟨d, a⟩ ∈ top.delegations ++ bottom.delegations)
    (hless : less < a) : ∃ m' top' bottom',
    m.decreaseDelegation c d a less s = (.ok m', s.relist c m m' top' bottom') ∧
      Relists m m' top bottom top' bottom' [⟨d, a⟩] [⟨d, a - less⟩] ∧
      (⟨d, a⟩ ∈ top.delegations → StaysExact bottom bottom') ∧
      (⟨d, a⟩ ∈ bottom.delegations → top' = top ∧ bottom'.total = bottom.total) := by
  rcases List.mem_append.mp hx with hx | hx
  · obtain ⟨m', top', bottom', hrun, hlists, hexact⟩ :=
      decreaseTopDelegation_run hR htop hbottom hr hm hx hless
    have hnot : ⟨d, a⟩ ∉ bottom.delegations := fun hx' => hr.ne_of_mem hx hx' rfl
    exact ⟨m', top', bottom', route_top (hm.top_routed hr hx) hrun, hlists, fun _ => hexact,
      fun hx' => absurd hx' hnot⟩
  · have hrun : m.decreaseBottomDelegation c d less s = _ :=
      decreaseBottomDelegation_eq htop hbottom hx rfl
    have hnone : m.decreaseTopDelegation c d a less s = _ :=
      decreaseTopDelegation_none htop fun y hy => hr.ne_of_mem hy hx
    have hnot : ⟨d, a⟩ ∉ top.delegations := fun hx' => hr.ne_of_mem hx' hx rfl
    have hlists := relists_adjustBottom (· - less) bottom.total hr hm hx
      (Nat.sub_pos_of_lt hless) (by
        intro x hxmem
        have hle : a ≤ x.amount := hr.le x hxmem _ hx
        show a - less ≤ x.amount
        omega)
    exact ⟨_, _, _, route_bottom (hm.bottom_routed hR hr hx) hnone hrun, hlists,
      fun hx' => absurd hx' hnot, fun _ => ⟨rfl, rfl⟩⟩

end Runs
end Staking
end ZkNft
