import ZkNft.Staking.Recount

/-! Every call returns: no `expect` meets a missing value, and no index is out of bounds. -/

namespace ZkNft
namespace Staking
open Keyed StorageMap

variable {R : Runtime}

section Total
variable {c d : R.Account} {m : CandidateMetadata} {D : Delegator R.Account}

theorem ensure_total (p : State R → Bool) (e : Error) : (ensure p e).Total :=
  .read fun _ => Exec.ensure_returns _ _

theorem getOr_total {α : Type} (f : State R → Option α) (e : Error) : (getOr f e).Total :=
  .read fun _ => Exec.okOr_returns _ _

theorem readOk_total {α : Type} (f : State R → α) :
    (Tx.read fun s => .ok (f s) : Update R α).Total := .read fun _ => Exec.ok_returns _

theorem adjustBondLock_total (b : BondAdjust) : (D.adjustBondLock b).Total := by
  unfold Delegator.adjustBondLock
  cases b with
  | increase amount =>
    apply Tx.Total.bind (ensure_total _ _)
    intro _
    exact .bind (.read fun _ => Exec.ensure_returns _ _) fun _ => .modify _
  | decrease => exact .modify _

theorem totalSub_total (a : ℕ) : (D.totalSub a).Total :=
  .bind (adjustBondLock_total _) fun _ => .pure _

theorem totalSub_noErr (a : ℕ) : (D.totalSub a).NoErr :=
  .bind (.modify _) fun _ => .pure _

/-- A lock can always go down. -/
theorem rmDelegation_total : (D.rmDelegation c).Total := by
  unfold Delegator.rmDelegation
  split
  · exact .bind (.expectOk (totalSub_total _) (totalSub_noErr _)) fun _ => .pure _
  · exact .pure _

theorem delegationRemoveRequestWithState_total :
    (delegationRemoveRequestWithState c d D).Total := by
  unfold delegationRemoveRequestWithState
  apply Tx.Total.bind (readOk_total _)
  intro requests
  split
  · exact .bind (.modify _) fun _ => .pure _
  · exact .pure _

theorem returnStake_total (x : Bond R.Account) : (returnStake c x).Total := by
  unfold returnStake
  apply Tx.Total.bind (getOr_total _ _)
  intro D
  apply Tx.Total.bind rmDelegation_total
  intro ⟨remaining, D'⟩
  cases remaining with
  | some remaining => exact .bind delegationRemoveRequestWithState_total fun _ => .modify _
  | none => exact .modify _

theorem returnStakes_total (bonds : List (Bond R.Account)) : (returnStakes c bonds).Total := by
  induction bonds with
  | nil => exact .pure _
  | cons x bonds ih => exact .bind (returnStake_total x) fun _ => ih

theorem validateRevokes_total (bonds : List (Bond R.Account)) :
    (validateRevokes d bonds).Total := by
  induction bonds with
  | nil => exact .pure _
  | cons x bonds ih =>
    apply Tx.Total.bind (readOk_total _)
    intro requests
    apply Tx.Total.bind (getOr_total _ _)
    intro taken
    apply Tx.Total.bind (ensure_total _ _)
    exact fun _ => .bind ih fun _ => .pure _

theorem totalSubIf_total (a : ℕ) : (D.totalSubIf a).Total := by
  unfold Delegator.totalSubIf
  apply Tx.Total.bind (ensure_total _ _)
  intro _
  apply Tx.Total.bind (ensure_total _ _)
  intro _
  exact .bind (adjustBondLock_total _) fun _ => .pure _

theorem editCandidate_total (f : State R → CandidateMetadata → Except Error CandidateMetadata) :
    (editCandidate c f).Total :=
  .bind (getOr_total _ _) fun _ => .read fun _ => Exec.lift_returns _

theorem storeInserted_total : (storeInserted c m).Total :=
  .bind (getOr_total _ _) fun _ => .modify _

theorem updateActive_total (n : ℕ) : (updateActive c n).Total := .modify _

end Total

section Calls
variable {c d : R.Account} {origin : Origin R}

theorem signed_total {f : R.Account → Update R PUnit} (hf : ∀ who, (f who).Total) :
    (Tx.transactional do
      let who ← Tx.read fun _ => ensureSigned origin
      f who).Total :=
  .transactional (.bind (.read fun _ => origin.ensureSigned_returns) hf)

theorem setTotalSelected_total (n : ℕ) : (setTotalSelected origin n).Total := by
  apply Tx.Total.transactional
  apply Tx.Total.bind (.read fun _ => origin.ensureRoot_returns)
  intro _
  apply Tx.Total.bind (ensure_total _ _)
  intro _
  apply Tx.Total.bind (ensure_total _ _)
  intro _
  apply Tx.Total.bind (ensure_total _ _)
  exact fun _ => .modify _

theorem setBlocksPerRound_total (n : ℕ) : (setBlocksPerRound origin n).Total := by
  apply Tx.Total.transactional
  apply Tx.Total.bind (.read fun _ => origin.ensureRoot_returns)
  intro _
  apply Tx.Total.bind (ensure_total _ _)
  intro _
  apply Tx.Total.bind (ensure_total _ _)
  intro _
  apply Tx.Total.bind (ensure_total _ _)
  exact fun _ => .modify _

theorem checkCandidateBond_total (bond : ℕ) : (checkCandidateBond c bond).Total := by
  unfold checkCandidateBond
  apply Tx.Total.bind (readOk_total _)
  intro listed
  apply Tx.Total.ite
  · apply Tx.Total.bind (ensure_total _ _)
    intro _
    apply Tx.Total.bind (getOr_total _ _)
    intro world
    exact .bind (.modify _) fun _ => ensure_total _ _
  · exact ensure_total _ _

theorem joinCandidates_total (bond n : ℕ) : (joinCandidates origin bond n).Total := by
  apply signed_total
  intro who
  apply Tx.Total.bind (ensure_total _ _)
  intro _
  apply Tx.Total.bind (ensure_total _ _)
  intro _
  apply Tx.Total.bind (checkCandidateBond_total bond)
  intro _
  apply Tx.Total.bind (ensure_total _ _)
  intro _
  apply Tx.Total.bind (getOr_total _ _)
  intro pool
  exact .bind (ensure_total _ _) fun _ => .modify _

theorem executeLeaveCandidates_total (n : ℕ) : (executeLeaveCandidates origin c n).Total := by
  apply signed_total
  intro _
  apply Tx.Total.bind (getOr_total _ _)
  intro m
  apply Tx.Total.bind (ensure_total _ _)
  intro _
  apply Tx.Total.bind (.read fun _ => Exec.lift_returns _)
  intro _
  apply Tx.Total.bind (getOr_total _ _)
  intro top
  apply Tx.Total.bind (.modify _)
  intro _
  apply Tx.Total.bind (returnStakes_total _)
  intro _
  apply Tx.Total.bind (getOr_total _ _)
  intro bottom
  apply Tx.Total.bind (.modify _)
  intro _
  exact .bind (returnStakes_total _) fun _ => .modify _

theorem candidateBondMore_total (more : ℕ) : (candidateBondMore origin more).Total := by
  apply signed_total
  intro who
  apply Tx.Total.bind (getOr_total _ _)
  intro m
  apply Tx.Total.bind
  · exact .bind (ensure_total _ _) fun _ => .bind (.modify _) fun _ => .pure _
  · exact fun _ => .bind (.modify _) fun _ => .ite (updateActive_total _) (.pure _)

theorem executeCandidateBondLess_total : (executeCandidateBondLess origin c).Total := by
  apply signed_total
  intro _
  apply Tx.Total.bind (getOr_total _ _)
  intro m
  apply Tx.Total.bind
  · apply Tx.Total.bind (getOr_total _ _)
    intro request
    apply Tx.Total.bind (ensure_total _ _)
    intro _
    apply Tx.Total.bind (.modify _)
    intro _
    exact .ite (.bind (updateActive_total _) fun _ => .pure _) (.pure _)
  · exact fun _ => .modify _

theorem delegationScheduleRevoke_total : (delegationScheduleRevoke c d).Total := by
  unfold delegationScheduleRevoke
  apply Tx.Total.bind (getOr_total _ _)
  intro D
  apply Tx.Total.bind (readOk_total _)
  intro requests
  apply Tx.Total.bind (ensure_total _ _)
  intro _
  apply Tx.Total.bind (getOr_total _ _)
  intro bonded
  exact .bind (readOk_total _) fun _ => .modify _

theorem delegationScheduleBondDecrease_total (less : ℕ) :
    (delegationScheduleBondDecrease c d less).Total := by
  unfold delegationScheduleBondDecrease
  apply Tx.Total.bind (getOr_total _ _)
  intro D
  apply Tx.Total.bind (readOk_total _)
  intro requests
  apply Tx.Total.bind (ensure_total _ _)
  intro _
  apply Tx.Total.bind (getOr_total _ _)
  intro bonded
  apply Tx.Total.bind (ensure_total _ _)
  intro _
  apply Tx.Total.bind (ensure_total _ _)
  intro _
  apply Tx.Total.bind (ensure_total _ _)
  intro _
  exact .bind (readOk_total _) fun _ => .modify _

theorem delegationCancelRequest_total : (delegationCancelRequest c d).Total := by
  unfold delegationCancelRequest
  apply Tx.Total.bind (getOr_total _ _)
  intro D
  apply Tx.Total.bind (readOk_total _)
  intro requests
  exact .bind (getOr_total _ _) fun _ => .modify _

theorem delegatorScheduleRevokeAll_total : (delegatorScheduleRevokeAll d).Total := by
  unfold delegatorScheduleRevokeAll
  apply Tx.Total.bind (getOr_total _ _)
  intro D
  apply Tx.Total.bind (readOk_total _)
  intro now
  apply Tx.Total.bind (readOk_total _)
  intro r
  exact .bind (ensure_total _ _) fun _ => .modify _

theorem delegatorCancelScheduledRevokeAll_total : (delegatorCancelScheduledRevokeAll d).Total := by
  unfold delegatorCancelScheduledRevokeAll
  apply Tx.Total.bind (getOr_total _ _)
  intro D
  cases D.status with
  | leaving when => exact .modify _
  | active =>
    apply Tx.Total.bind (ensure_total _ _)
    intro _
    exact .bind (readOk_total _) fun _ => .modify _

end Calls

section Lists
variable {m : CandidateMetadata} {s : State R} {c d : R.Account} {a : ℕ}
  {top bottom : Delegations R.Account} (hR : R.Placed)
  (htop : s.topDelegations.get c = some top) (hbottom : s.bottomDelegations.get c = some bottom)
  (hr : Ranked R top.delegations bottom.delegations) (hm : Mirrors R m top bottom)
include hR htop hbottom hr hm

theorem increaseBottomDelegation_found (more : ℕ) (hx : ⟨d, a⟩ ∈ bottom.delegations) :
    ∃ m' s', m.increaseBottomDelegation c d a more s = (.ok m', s') := by
  by_cases hlt : m.lowestTopDelegationAmount < satAdd a more
  · have hfull := hr.full (List.ne_nil_of_mem hx)
    have hcap : top.topCapacity R = .full := capacity_full.mpr (Nat.le_of_eq hfull.symm)
    obtain ⟨low, hlast, -⟩ := hm.last_of_top hR hfull
    exact ⟨_, _, increaseBottomDelegation_raise htop hbottom hr.oneEach_bottom hx hlt hcap hlast
      rfl rfl rfl⟩
  · exact ⟨_, _, increaseBottomDelegation_stay htop hbottom hx (Nat.not_lt.mp hlt) rfl⟩

/-- A delegation in the lists is found, whatever it goes up by. -/
theorem increaseDelegation_found (more : ℕ) (hx : ⟨d, a⟩ ∈ top.delegations ++ bottom.delegations) :
    ∃ m' s', m.increaseDelegation c d a more s = (.ok m', s') := by
  rcases List.mem_append.mp hx with hx | hx
  · have hrun : m.increaseTopDelegation c d more s = _ :=
      increaseTopDelegation_eq htop hbottom hx rfl
    exact ⟨_, _, route_top (hm.top_routed hr hx) hrun⟩
  · obtain ⟨m', s', hrun⟩ := increaseBottomDelegation_found hR htop hbottom hr hm more hx
    have hnone : m.increaseTopDelegation c d more s = _ :=
      increaseTopDelegation_none htop fun y hy => hr.ne_of_mem hy hx
    exact ⟨m', s', route_bottom (hm.bottom_routed hR hr hx) hnone hrun⟩

theorem decreaseTopDelegation_found (less : ℕ) (hx : ⟨d, a⟩ ∈ top.delegations) :
    ∃ m' s', m.decreaseTopDelegation c d a less s = (.ok m', s') := by
  by_cases hlower : a - less < m.highestBottomDelegationAmount ∧ m.topCapacity = .full ∧
      m.bottomCapacity ≠ .empty
  · obtain ⟨h, hhead, -⟩ := hm.head_of_bottom hR hlower.2.2
    exact ⟨_, _, decreaseTopDelegation_lower htop hbottom hr.oneEach_top hx hlower hhead rfl rfl
      rfl⟩
  · exact ⟨_, _, decreaseTopDelegation_stay htop hbottom hx hlower rfl⟩

/-- A delegation in the lists is found, whatever it goes down by. -/
theorem decreaseDelegation_found (less : ℕ) (hx : ⟨d, a⟩ ∈ top.delegations ++ bottom.delegations) :
    ∃ m' s', m.decreaseDelegation c d a less s = (.ok m', s') := by
  rcases List.mem_append.mp hx with hx | hx
  · obtain ⟨m', s', hrun⟩ := decreaseTopDelegation_found hR htop hbottom hr hm less hx
    exact ⟨m', s', route_top (hm.top_routed hr hx) hrun⟩
  · have hrun : m.decreaseBottomDelegation c d less s = _ :=
      decreaseBottomDelegation_eq htop hbottom hx rfl
    have hnone : m.decreaseTopDelegation c d a less s = _ :=
      decreaseTopDelegation_none htop fun y hy => hr.ne_of_mem hy hx
    exact ⟨_, _, route_bottom (hm.bottom_routed hR hr hx) hnone hrun⟩

theorem addDelegation_returns
    (hnew : ∀ x ∈ top.delegations ++ bottom.delegations, x.owner ≠ d) (hpos : 0 < a)
    (hs : DelegatorsOk s)
    (hagree : ∀ x ∈ bottom.delegations, ⟨c, x.amount⟩ ∈ s.delegationsOf x.owner) :
    (m.addDelegation c ⟨d, a⟩ s).1.Returns := by
  unfold CandidateMetadata.addDelegation
  by_cases hfull : m.topCapacity = .full
  · rw [if_pos hfull]
    by_cases hlt : m.lowestTopDelegationAmount < a
    · rw [hm.topCapacity] at hfull
      obtain ⟨less, m', s', hrun, -⟩ :=
        addTopDelegation_bump hR htop hbottom hr hm hnew hpos hs hagree hfull hlt
      rw [if_pos hlt, hrun]
      exact Exec.ok_returns _
    · rw [if_neg hlt]
      obtain ⟨o, bottom₀, s₁, less, -, hroom, -⟩ := makeRoom_run hR hs hr hm hagree false
      have hrun := addBottomDelegation_eq (m := m) (x := ⟨d, a⟩) hbottom hroom rfl
      have hadd : ∀ less : Option ℕ, ((m.addBottomDelegation false c ⟨d, a⟩ >>= fun m' =>
          pure (m', less) : Update R _) s).1.Returns := by
        intro less
        rw [Tx.bind_run_of_ok hrun]
        exact Exec.ok_returns _
      dsimp only
      split_ifs
      · apply Tx.bind_run_returns.mpr
        refine ⟨ensure_total _ _ s, ?_⟩
        intro _ s₂ hensure
        obtain rfl := (Prod.mk.inj hensure).2
        exact hadd _
      · exact hadd _
  · obtain ⟨m', s', hrun, -⟩ := addTopDelegation_free hR htop hbottom hr hm hnew hpos hfull
    rw [if_neg hfull, Tx.bind_run_of_ok hrun]
    exact Exec.ok_returns _

end Lists

section Found
variable {s s' : State R} {c d : R.Account} {a : ℕ} (hR : R.Placed) (hs : Books s)

/-- A delegation that its delegator has is found by every operation on the lists. -/
structure Found (s : State R) (c d : R.Account) (a : ℕ) (m : CandidateMetadata) : Prop where
  info : s.candidateInfo.get c = some m
  remove : ∃ m' s', m.rmDelegationIfExists c d a s = (.ok m', s')
  increase : ∀ more, ∃ m' s', m.increaseDelegation c d a more s = (.ok m', s')
  decrease : ∀ less, ∃ m' s', m.decreaseDelegation c d a less s = (.ok m', s')

include hR hs

theorem Books.found (hx : ⟨c, a⟩ ∈ s.delegationsOf d) : ∃ m, Found s c d a m := by
  have hto := (hs.agree c d a).mpr hx
  obtain ⟨m, hm⟩ := hs.candidates.candidate_of_mem hto
  obtain ⟨top, bottom, htop, hbottom, hr, hmirrors⟩ := hs.candidates.lists hm
  rw [delegationsTo_eq htop hbottom] at hto
  refine ⟨m, hm, ?_, fun more => increaseDelegation_found hR htop hbottom hr hmirrors more hto,
    fun less => decreaseDelegation_found hR htop hbottom hr hmirrors less hto⟩
  obtain ⟨m', top', bottom', hrun, -⟩ := rmDelegationIfExists_run hR htop hbottom hr hmirrors hto
  exact ⟨m', _, hrun⟩

end Found

section Binds
variable {s : State R} {origin : Origin R} {α β : Type}

theorem bind_returns {x : Update R α} {f : α → Update R β} (hx : x.Total)
    (hf : ∀ a s₁, x s = (.ok a, s₁) → (f a s₁).1.Returns) : ((x >>= f) s).1.Returns :=
  Tx.bind_run_returns.mpr ⟨hx s, hf⟩

theorem ok_bind_returns {x : Update R α} {f : α → Update R β} {a : α} {s₁ : State R}
    (hx : x s = (.ok a, s₁)) (hf : (f a s₁).1.Returns) : ((x >>= f) s).1.Returns := by
  rw [Tx.bind_run_of_ok hx]
  exact hf

theorem ensure_returns {p : State R → Bool} {e : Error} {f : PUnit → Update R α}
    (hf : p s = true → (f ⟨⟩ s).1.Returns) : ((ensure p e >>= f) s).1.Returns := by
  apply Tx.read_bind_returns.mpr
  exact ⟨Exec.ensure_returns _ _, fun _ h => hf (Exec.ensure_eq_ok.mp h)⟩

theorem getOr_returns {g : State R → Option α} {e : Error} {f : α → Update R β}
    (hf : ∀ a, g s = some a → (f a s).1.Returns) : ((getOr g e >>= f) s).1.Returns := by
  apply Tx.read_bind_returns.mpr
  exact ⟨Exec.okOr_returns _ _, fun a h => hf a (Exec.okOr_eq_ok.mp h)⟩

theorem signed_returns {f : R.Account → Update R PUnit} (hf : ∀ who, (f who s).1.Returns) :
    ((Tx.transactional do
      let who ← Tx.read fun _ => ensureSigned origin
      f who) s).1.Returns := by
  apply Tx.transactional_returns.mpr
  apply Tx.read_bind_returns.mpr
  exact ⟨origin.ensureSigned_returns, fun who _ => hf who⟩

end Binds

section Delegators
variable {s : State R} {c d : R.Account} {origin : Origin R} (hR : R.Placed) (hs : Books s)
include hR hs

theorem executeRevoke_returns {a : ℕ} {D : Delegator R.Account}
    {request : ScheduledRequest R.Account} {rest : List (ScheduledRequest R.Account)}
    (hD : s.delegatorState.get d = some D)
    (htake : takeRequest d (s.delegationScheduledRequests c) = some (request, rest))
    (haction : request.action = .revoke a) : (executeRevoke c d D a rest s).1.Returns := by
  have hok := hs.delegators d D hD
  obtain ⟨hmem, hrd, -⟩ := takeRequest_eq_some htake
  obtain ⟨b, hlive, hall⟩ := (hs.requests c).live request hmem
  obtain rfl := hall a haction
  rw [hrd] at hlive
  have hto : ⟨d, a⟩ ∈ s.delegationsTo c := (hs.agree c d a).mpr hlive
  rw [delegationsOf_eq hD] at hlive
  have hok' : DelegatorOk R d { D with lessTotal := D.lessTotal - a } := ⟨hok.id, hok.ordered,
    hok.nonempty, hok.length_le, hok.pos, hok.total, hok.total_le, hok.status⟩
  obtain ⟨w, hleave, -⟩ := delegatorLeavesCandidate_run
    (s := { s with world := R.relock s.world (D.rest c a (D.lessTotal - a)) }) hR hs.candidates hto
  unfold executeRevoke
  have hrest : ∀ store : Option ℕ × Delegator R.Account → State R → State R,
      (({ D with lessTotal := D.lessTotal - a }.rmDelegation c >>= fun r =>
        delegatorLeavesCandidate c d a >>= fun _ => Tx.modify (store r) :
          Update R PUnit) s).1.Returns := by
    intro store
    apply ok_bind_returns (rmDelegation_run hok' hlive)
    apply ok_bind_returns hleave
    exact Exec.ok_returns _
  dsimp only
  by_cases hone : D.delegations.length = 1
  · rw [decide_eq_true hone]
    exact hrest _
  · rw [decide_eq_false hone]
    exact ensure_returns fun _ => hrest _

theorem executeDecrease_returns {less : ℕ} {D : Delegator R.Account}
    {rest : List (ScheduledRequest R.Account)} (hD : s.delegatorState.get d = some D) :
    (executeDecrease c d D less rest s).1.Returns := by
  have hok := hs.delegators d D hD
  unfold executeDecrease
  apply getOr_returns
  intro a hbond
  apply ensure_returns
  intro _
  dsimp only
  apply getOr_returns
  intro m hm
  have hmem := (getBondAmount_eq_some hok.ordered.oneEach).mp hbond
  have hto : ⟨d, a⟩ ∈ s.delegationsTo c := by
    rw [hs.agree, delegationsOf_eq hD]
    exact hmem
  obtain ⟨top, bottom, htop, hbottom, hr, hmirrors⟩ := hs.candidates.lists hm
  rw [delegationsTo_eq htop hbottom] at hto
  apply bind_returns (totalSubIf_total less)
  intro D' s₁ hsub
  simp only [Delegator.totalSubIf, ensure_bind_ok] at hsub
  obtain ⟨-, -, hsub⟩ := hsub
  rw [Tx.bind_run_of_ok adjustBondLock_decrease] at hsub
  obtain ⟨-, rfl⟩ := Tx.pure_ok.mp hsub
  have hfound : ∀ world, (m.decreaseDelegation c d a less { s with world }).1.Returns := by
    intro world
    obtain ⟨m', s', hrun⟩ :=
      decreaseDelegation_found hR (s := { s with world }) htop hbottom hr hmirrors less hto
    rw [hrun]
    exact Exec.ok_returns _
  apply Tx.bind_run_returns.mpr
  exact ⟨hfound _, fun _ _ _ => Exec.ok_returns _⟩

theorem executeDelegationRequest_returns :
    (executeDelegationRequest origin d c s).1.Returns := by
  apply signed_returns
  intro _
  unfold delegationExecuteScheduledRequest
  apply getOr_returns
  intro D hD
  apply Tx.read_bind_returns.mpr
  refine ⟨Exec.ok_returns _, ?_⟩
  intro requests hrequests
  obtain rfl := Exec.ok.inj hrequests
  apply getOr_returns
  intro ⟨request, rest⟩ htake
  apply ensure_returns
  intro _
  cases haction : request.action with
  | revoke a => exact executeRevoke_returns hR hs hD htake haction
  | decrease less => exact executeDecrease_returns hR hs hD

theorem delegatorBondMore_returns (more : ℕ) :
    (delegatorBondMore origin c more s).1.Returns := by
  apply signed_returns
  intro d
  apply ensure_returns
  intro _
  apply getOr_returns
  intro D hD
  have hok := hs.delegators d D hD
  obtain rfl := hok.id
  apply getOr_returns
  intro a hbond
  have hmem := (getBondAmount_eq_some hok.ordered.oneEach).mp hbond
  have hto : ⟨D.id, a⟩ ∈ s.delegationsTo c := by
    rw [hs.agree, delegationsOf_eq hD]
    exact hmem
  apply bind_returns (adjustBondLock_total _)
  intro _ s₁ hlock
  obtain ⟨-, rfl⟩ := adjustBondLock_increase_ok hlock
  apply getOr_returns
  intro m hm
  obtain ⟨top, bottom, htop, hbottom, hr, hmirrors⟩ := hs.candidates.lists hm
  rw [delegationsTo_eq htop hbottom] at hto
  have hfound : ∀ world, (m.increaseDelegation c D.id a more { s with world }).1.Returns := by
    intro world
    obtain ⟨m', s', hrun⟩ :=
      increaseDelegation_found hR (s := { s with world }) htop hbottom hr hmirrors more hto
    rw [hrun]
    exact Exec.ok_returns _
  apply Tx.bind_run_returns.mpr
  refine ⟨hfound _, ?_⟩
  intro m' s₂ _
  exact Tx.Total.ite (.bind (updateActive_total _) fun _ => .modify _) (.modify _) s₂

theorem executeLeaveDelegators_returns (n : ℕ) :
    (executeLeaveDelegators origin d n s).1.Returns := by
  apply signed_returns
  intro _
  unfold delegatorExecuteScheduledRevokeAll
  apply getOr_returns
  intro D hD
  apply ensure_returns
  intro _
  have hok := hs.delegators d D hD
  rw [hok.status]
  apply bind_returns (validateRevokes_total _)
  intro validated s₁ hvalid
  obtain ⟨rfl, hfst, -⟩ := validateRevokes_ok (fun c => (hs.requests c).distinct) hvalid
  have hmem : ∀ x ∈ D.delegations, ⟨d, x.amount⟩ ∈ s₁.delegationsTo x.owner := by
    intro x hx
    rw [hs.agree, delegationsOf_eq hD]
    exact hx
  obtain ⟨info, top, bottom, pool, total, hrun, -⟩ :=
    leaveAll_run hR hs.candidates hok.ordered.oneEach hmem
  rw [hfst, Tx.bind_run_of_ok hrun]
  exact Tx.Total.bind (totalSub_total _) (fun _ => .modify _) _

theorem delegate_returns (hfree : ∀ w a, R.freeBalance w a ≤ maxBalance) (a n k : ℕ) :
    (delegate origin c a n k s).1.Returns := by
  apply signed_returns
  intro d
  apply ensure_returns
  intro hroom
  apply Tx.read_bind_returns.mpr
  refine ⟨Exec.lift_returns _, ?_⟩
  intro D hjoin
  rw [Exec.lift_eq_ok, Exec.except_mapError_eq_ok] at hjoin
  apply getOr_returns
  intro m hm
  apply ensure_returns
  intro _
  obtain ⟨hpos, -, -, -, -, -, hnew⟩ :=
    joinDelegation_ok hR hs hfree (of_decide_eq_true hroom) hjoin
  obtain ⟨top, bottom, htop, hbottom, hr, hmirrors⟩ := hs.candidates.lists hm
  have hlists := delegationsTo_eq htop hbottom
  have hfresh : ∀ x ∈ top.delegations ++ bottom.delegations, x.owner ≠ d := by
    intro x hx hxd
    rw [← hlists] at hx
    have hmem := (hs.agree c x.owner x.amount).mp hx
    rw [hxd] at hmem
    exact hnew _ hmem rfl
  have hagree : ∀ x ∈ bottom.delegations, ⟨c, x.amount⟩ ∈ s.delegationsOf x.owner := by
    intro x hx
    apply (hs.agree c x.owner x.amount).mp
    rw [hlists]
    exact List.mem_append_right _ hx
  apply Tx.bind_run_returns.mpr
  refine ⟨addDelegation_returns hR htop hbottom hr hmirrors hfresh hpos hs.delegators hagree, ?_⟩
  intro added s₁ _
  exact Tx.Total.bind (adjustBondLock_total _) (fun _ => .modify _) s₁

theorem Call.dispatch_returns (hfree : ∀ w a, R.freeBalance w a ≤ maxBalance) (call : Call R) :
    (call.dispatch origin s).1.Returns := by
  cases call with
  | setTotalSelected n => exact setTotalSelected_total n s
  | setBlocksPerRound n => exact setBlocksPerRound_total n s
  | joinCandidates bond n => exact joinCandidates_total bond n s
  | scheduleLeaveCandidates n =>
    apply signed_returns
    intro who
    apply Tx.Total.bind (editCandidate_total _)
    exact fun m => .bind (ensure_total _ _) fun _ => .modify _
  | executeLeaveCandidates c n => exact executeLeaveCandidates_total n s
  | cancelLeaveCandidates n =>
    apply signed_returns
    intro who
    apply Tx.Total.bind (editCandidate_total _)
    exact fun m => .bind (ensure_total _ _) fun _ => storeInserted_total
  | goOffline =>
    apply signed_returns
    intro who
    exact Tx.Total.bind (editCandidate_total _) (fun _ => .modify _) s
  | goOnline =>
    apply signed_returns
    intro who
    exact Tx.Total.bind (editCandidate_total _) (fun _ => storeInserted_total) s
  | candidateBondMore more => exact candidateBondMore_total more s
  | scheduleCandidateBondLess less =>
    apply signed_returns
    intro who
    exact Tx.Total.bind (editCandidate_total _) (fun _ => .modify _) s
  | executeCandidateBondLess c => exact executeCandidateBondLess_total s
  | cancelCandidateBondLess =>
    apply signed_returns
    intro who
    exact Tx.Total.bind (editCandidate_total _) (fun _ => .modify _) s
  | delegate c a n k => exact delegate_returns hR hs hfree a n k
  | scheduleLeaveDelegators => exact signed_returns fun _ => delegatorScheduleRevokeAll_total s
  | executeLeaveDelegators d n => exact executeLeaveDelegators_returns hR hs n
  | cancelLeaveDelegators =>
    exact signed_returns fun _ => delegatorCancelScheduledRevokeAll_total s
  | scheduleRevokeDelegation c => exact signed_returns fun _ => delegationScheduleRevoke_total s
  | delegatorBondMore c more => exact delegatorBondMore_returns hR hs more
  | scheduleDelegatorBondLess c less =>
    exact signed_returns fun _ => delegationScheduleBondDecrease_total less s
  | executeDelegationRequest d c => exact executeDelegationRequest_returns hR hs
  | cancelDelegationRequest c => exact signed_returns fun _ => delegationCancelRequest_total s

end Delegators

end Staking
end ZkNft
