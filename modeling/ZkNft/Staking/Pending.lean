import Mathlib.Algebra.BigOperators.Finprod
import ZkNft.Staking.Soundness

/-! The pending requests of delegators along a run. -/

namespace ZkNft
namespace Staking
open Keyed StorageMap

variable {R : Runtime}

section Effects
variable {s s' : State R}

theorem Room.reckoned {c : R.Account} {bottom bottom₀ : Delegations R.Account}
    {o : List (Bond R.Account)} {s₁ : State R} {less : Option ℕ}
    (h : Room s c bottom o bottom₀ s₁ less) (hr : Reckoned s) : Reckoned s₁ := by
  cases h with
  | free => exact hr
  | kicked v => exact v.reckoned hr

/-- Who does not delegate to the candidate is not touched. -/
theorem Room.delegator_eq {c d : R.Account} {bottom bottom₀ : Delegations R.Account}
    {o : List (Bond R.Account)} {s₁ : State R} {less : Option ℕ}
    (h : Room s c bottom o bottom₀ s₁ less) (hd : ∀ x ∈ s.delegationsOf d, x.owner ≠ c) :
    s₁.delegatorState.get d = s.delegatorState.get d := by
  cases h with
  | free => rfl
  | @kicked k a v =>
    have hne : d ≠ k := by
      intro hdk
      have hmem := v.mem
      rw [← delegationsOf_eq v.get, ← hdk] at hmem
      exact hd _ hmem rfl
    exact get_storeRest_of_ne hne

theorem Room.mem_requests {c b : R.Account} {bottom bottom₀ : Delegations R.Account}
    {o : List (Bond R.Account)} {s₁ : State R} {less : Option ℕ}
    (h : Room s c bottom o bottom₀ s₁ less) {r : ScheduledRequest R.Account}
    (hr : r ∈ s₁.delegationScheduledRequests b) : r ∈ s.delegationScheduledRequests b := by
  cases h with
  | free => exact hr
  | kicked v => exact v.mem_requests hr

/-- A further delegation, with no request on it. -/
theorem Reckons.delegate {delegators : StorageMap R.Account (Delegator R.Account)}
    {requests : R.Account → List (ScheduledRequest R.Account)} {c d : R.Account} {a : ℕ}
    {D : Delegator R.Account} (h : Reckons delegators requests)
    (hperm : D.delegations.Perm
      (⟨c, a⟩ :: (delegators.get d).elim [] Delegator.delegations))
    (hless : D.lessTotal = (delegators.get d).elim 0 Delegator.lessTotal)
    (hnone : ∀ r ∈ requests c, r.delegator ≠ d) : Reckons (delegators.insert d D) requests := by
  apply h.insert
  · rw [requested_perm hperm, requested_cons, requestedBy_none hnone, hless, Nat.zero_add]
    cases hD : delegators.get d with
    | none => rfl
    | some D₀ => exact h.less d D₀ hD
  · exact fun _ _ _ => rfl
  · exact fun _ _ hr _ => hr
  · intro b r hr hrd n less hmem
    rcases List.mem_cons.mp (hperm.mem_iff.mp hmem) with heq | hmem
    · obtain ⟨rfl, -⟩ := Bond.mk.inj heq
      exact absurd hrd (hnone r hr)
    · cases hD : delegators.get d with
      | none =>
        rw [hD] at hmem
        cases hmem
      | some D₀ =>
        rw [hD] at hmem
        exact h.decrease b r hr D₀ n less (hrd ▸ hD) hmem

/-- A leaving candidate takes the requests under it along. -/
theorem Returned.reckoned_leave {c : R.Account} {ks : List R.Account}
    {delegators : StorageMap R.Account (Delegator R.Account)}
    {requests : R.Account → List (ScheduledRequest R.Account)} {world : R.World}
    (h : Returned s (s.settled delegators requests world) c ks) (hr : Reckoned s)
    (hall : ∀ d, ∀ x ∈ s.delegationsOf d, x.owner = c → d ∈ ks) :
    Reckoned ((s.settled delegators requests world).setRequests c []) := by
  have hr' : Reckons delegators requests := h.reckoned hr
  have hget : ∀ b, ((s.settled delegators requests world).setRequests c
      []).delegationScheduledRequests b = if b = c then [] else requests b := fun _ => rfl
  constructor
  · intro d D hD
    rw [hr'.less d D hD]
    apply requested_congr
    intro x hx
    have hD' : (s.settled delegators requests world).delegatorState.get d = some D := hD
    rw [← delegationsOf_eq hD'] at hx
    obtain ⟨hold, hgone⟩ := (h.mem_delegationsOf d x).mp hx
    have hne : x.owner ≠ c := fun hxc => hgone ⟨hall d x hold hxc, hxc⟩
    rw [hget, if_neg hne]
  · intro b r hmem
    rw [hget] at hmem
    split_ifs at hmem
    · cases hmem
    · exact hr'.decrease b r hmem

theorem Effect.reckoned (h : Effect s s') (hs : Books s) (hr : Reckoned s) : Reckoned s' := by
  cases h with
  | quiet => exact hr
  | edit => exact hr
  | bondMore => exact hr
  | bondLess => exact hr
  | join => exact hr
  | @leave c _ _ _ _ _ _ _ htop hbottom hreturned =>
    apply hreturned.reckoned_leave hr
    intro d x hx hxc
    rw [← delegationsTo_eq htop hbottom]
    have hto : ⟨d, x.amount⟩ ∈ s.delegationsTo c := by
      rw [hs.agree, ← hxc]
      exact hx
    exact List.mem_map_of_mem hto
  | @delegate c d a m m' _ _ _ _ D _ _ _ hadded _ hD hperm _ hless =>
    obtain ⟨o, bottom₀, s₁, top', bottom', hroom, rfl, -⟩ := hadded
    have hnew : ∀ x ∈ s.delegationsOf d, x.owner ≠ c := by
      have hone := hD.ordered.oneEach.perm hperm
      exact (distinct_cons.mp hone).1
    have hget := hroom.delegator_eq hnew
    apply (hroom.reckoned hr).delegate (c := c) (a := a)
    · rw [hget]
      exact hperm
    · rw [hget]
      exact hless
    · intro r hmem hrd
      obtain ⟨n, hlive, -⟩ := (hs.requests c).live r (hroom.mem_requests hmem)
      rw [hrd] at hlive
      exact hnew _ hlive rfl
  | @increase c d a more D _ w _ hD hmem _ _ =>
    have hok := hs.delegators d D hD
    have hle : a ≤ D.total := hok.total ▸ amount_le_amounts hmem
    have hmax := hok.total_le
    apply Reckons.insert hr
    · exact (hr.less d D hD).trans (requested_owners (changeFirst_owners _)).symm
    · exact fun _ _ _ => rfl
    · exact fun _ _ hr _ => hr
    · intro b r hmem' hrd n less hn haction
      rcases (mem_changed _ _ _ hok hmem).mp hn with heq | ⟨hn, -⟩
      · obtain ⟨rfl, rfl⟩ := Bond.mk.inj heq
        have hlt := hr.decrease b r hmem' D a less (hrd ▸ hD) hmem haction
        unfold satAdd
        omega
      · exact hr.decrease b r hmem' D n less (hrd ▸ hD) hn haction
  | rerequest _ _ _ hreckoned => exact hreckoned hr
  | revoke w _ v => exact v.reckoned hr
  | leaveDelegators _ _ hrequests hothers =>
    exact Reckons.remove hr hothers fun c r hmem => (hrequests c).1.subset hmem

theorem Decreased.reckoned {c d : R.Account} {a less : ℕ} (h : Decreased s s' c d a less)
    (hs : Books s) (hless : requestedBy d (s.delegationScheduledRequests c) = less)
    (hr : Reckoned s) : Reckoned s' := by
  obtain ⟨w, D, hD, hmem, -, -, -, rfl⟩ := h.out
  have hok := hs.delegators d D hD
  let requests : R.Account → List (ScheduledRequest R.Account) := (s.setRequests c
    (dropRequest d (s.delegationScheduledRequests c))).delegationScheduledRequests
  have hget : ∀ b, requests b = if b = c then dropRequest d (s.delegationScheduledRequests c)
    else s.delegationScheduledRequests b := fun _ => rfl
  have hdistinct := (hs.requests c).distinct
  apply Reckons.insert hr
  · show D.lessTotal - less = requested requests d (changeFirst c (· - less) D.delegations)
    have hchange := requested_change (d := d) requests hok.ordered.oneEach hmem
      fun b hb => (hget b).trans (if_neg hb)
    rw [hget, if_pos rfl, requestedBy_drop_self hdistinct, hless, ← hr.less d D hD] at hchange
    rw [requested_owners (changeFirst_owners _)]
    omega
  · intro b e he
    show requestedBy e (requests b) = _
    rw [hget]
    split_ifs with hb
    · rw [hb, requestedBy_drop_other he]
    · rfl
  · intro b r hmem' _
    have hmem'' : r ∈ requests b := hmem'
    rw [hget] at hmem''
    split_ifs at hmem'' with hb
    · rw [hb]
      exact dropRequest_sublist.subset hmem''
    · exact hmem''
  · intro b r hmem' hrd n less' hn haction
    have hmem'' : r ∈ requests b := hmem'
    rw [hget] at hmem''
    split_ifs at hmem'' with hb
    · exact absurd hrd (ne_of_mem_dropRequest hdistinct hmem'')
    · rcases (mem_changed _ _ _ hok hmem).mp hn with heq | ⟨hn, -⟩
      · exact absurd (Bond.mk.inj heq).1 hb
      · exact hr.decrease b r hmem'' D n less' (hrd ▸ hD) hn haction

end Effects

section Moves
variable {s : State R} (hR : R.Placed) (hfree : ∀ w a, R.freeBalance w a ≤ maxBalance)

theorem DecreaseDue.requestedBy_eq {c d : R.Account} {a less : ℕ} (h : DecreaseDue s c d a less) :
    requestedBy d (s.delegationScheduledRequests c) = less := by
  obtain ⟨D, request, rest, -, htake, haction, -⟩ := h
  rw [requestedBy_of_take htake, haction]
  rfl

include hR hfree in
theorem Reckoned.next (hs : Books s) (m : Move R) (hr : Reckoned s) : Reckoned (m.next s) := by
  cases m with
  | call origin call =>
    show Reckoned (call.dispatch origin s).2
    by_cases hok : ∃ u, (call.dispatch origin s).1 = .ok u
    · obtain ⟨u, hu⟩ := hok
      rcases call.dispatch_effect hR hs hfree (Prod.ext hu rfl) with
        h | ⟨_, _, _, _, _, hdue, h⟩
      · exact h.reckoned hs hr
      · exact h.reckoned hs hdue.requestedBy_eq hr
    · rw [Call.dispatch_rollback fun u hu => hok ⟨u, hu⟩]
      exact hr
  | block now => exact hr
  | other world => exact hr

theorem Reckoned.genesis (world : R.World) : Reckoned (State.genesis world) := by
  constructor
  · intro d D hD
    cases hD
  · intro c r hr
    cases hr

end Moves

/-- The requests under the collators fit the delegations, and the delegators keep their sums. -/
structure PendingConsistent (s : State R) : Prop where
  atMostOne : ∀ c d, ((s.delegationScheduledRequests c).filter fun r => r.delegator = d).length ≤ 1
  live : ∀ c, ∀ r ∈ s.delegationScheduledRequests c, ∃ D a,
    s.delegatorState.get r.delegator = some D ∧ ⟨c, a⟩ ∈ D.delegations ∧
      (∀ n, r.action = .revoke n → n = a) ∧ ∀ n, r.action = .decrease n → n < a
  lessTotal : ∀ d D, s.delegatorState.get d = some D → ∀ collators : Finset R.Account,
    (∀ c, ∀ r ∈ s.delegationScheduledRequests c, r.delegator = d → c ∈ collators) →
    D.lessTotal = ∑ c ∈ collators, (((s.delegationScheduledRequests c).filter fun r =>
      r.delegator = d).map fun r => r.action.amount).sum

theorem RequestsFit.atMostOne {c : R.Account} {requests : List (ScheduledRequest R.Account)}
    {delegationsOf : R.Account → List (Bond R.Account)} (h : RequestsFit c requests delegationsOf)
    (d : R.Account) : (requests.filter fun r => r.delegator = d).length ≤ 1 := by
  have hone : Distinct ScheduledRequest.delegator (requests.filter fun r => r.delegator = d) :=
    h.distinct.sublist List.filter_sublist
  have hall : ∀ e ∈ (requests.filter fun r => r.delegator = d).map ScheduledRequest.delegator,
      e = d := by
    intro e he
    obtain ⟨r, hr, rfl⟩ := List.mem_map.mp he
    exact of_decide_eq_true (List.mem_filter.mp hr).2
  unfold Distinct at hone
  rw [List.eq_replicate_of_mem hall, List.nodup_replicate, List.length_map] at hone
  exact hone

theorem requested_eq_sum {requests : R.Account → List (ScheduledRequest R.Account)}
    {d : R.Account} {bonds : List (Bond R.Account)} (hone : OneEach bonds) :
    requested requests d bonds =
      ∑ c ∈ (bonds.map Bond.owner).toFinset, requestedBy d (requests c) := by
  rw [List.sum_toFinset _ hone, List.map_map]
  rfl

theorem Books.pendingConsistent {s : State R} (hs : Books s) (hr : Reckoned s) :
    PendingConsistent s := by
  constructor
  · exact fun c d => (hs.requests c).atMostOne d
  · intro c r hmem
    obtain ⟨a, hlive, hrevoke⟩ := (hs.requests c).live r hmem
    obtain ⟨D, hD, hlive⟩ := delegator_of_mem hlive
    exact ⟨D, a, hD, hlive, hrevoke, fun n haction => hr.decrease c r hmem D a n hD hlive haction⟩
  · intro d D hD collators hall
    have hone := (hs.delegators d D hD).ordered.oneEach
    have hmem : ∀ c, requestedBy d (s.delegationScheduledRequests c) ≠ 0 →
        ∃ r ∈ s.delegationScheduledRequests c, r.delegator = d := by
      intro c hne
      by_contra hnone
      apply hne
      apply requestedBy_none
      intro r hr hrd
      exact hnone ⟨r, hr, hrd⟩
    have howners : ∀ c, requestedBy d (s.delegationScheduledRequests c) ≠ 0 →
        c ∈ (D.delegations.map Bond.owner).toFinset := by
      intro c hne
      obtain ⟨r, hr, hrd⟩ := hmem c hne
      obtain ⟨a, hlive, -⟩ := (hs.requests c).live r hr
      rw [hrd, delegationsOf_eq hD] at hlive
      exact List.mem_toFinset.mpr (List.mem_map_of_mem hlive)
    have hcollators : ∀ c, requestedBy d (s.delegationScheduledRequests c) ≠ 0 →
        c ∈ collators := by
      intro c hne
      obtain ⟨r, hr, hrd⟩ := hmem c hne
      exact hall c r hr hrd
    rw [hr.less d D hD, requested_eq_sum hone,
      ← finsum_eq_sum_of_support_subset _ howners, finsum_eq_sum_of_support_subset _ hcollators]
    exact Finset.sum_congr rfl fun c _ => requestedBy_eq_sum (hs.requests c).distinct

/-- In every state reached, the pending requests are consistent. -/
theorem pending_consistent (hR : R.Placed) (hfree : ∀ w a, R.freeBalance w a ≤ maxBalance)
    {world : R.World} {tr : List (State R × Move R)} {s : State R}
    (h : Runs (State.genesis world) tr s) : PendingConsistent s := by
  have hinvariant : Books s ∧ Reckoned s := by
    apply h.invariant (I := fun s => Books s ∧ Reckoned s) ⟨.genesis world, .genesis world⟩
    intro s m hs _
    exact ⟨hs.1.step hR hfree m, hs.2.next hR hfree hs.1 m⟩
  exact hinvariant.1.pendingConsistent hinvariant.2

section Witness
open Staking.Sample

/-- A delegator of two candidates has a decrease pending, and then leaves both. -/
def overtaken : List (Move (runtime 1)) :=
  [user 1 (.joinCandidates 10 0), user 2 (.joinCandidates 10 1), user 3 (.delegate (1 : ℕ) 20 0 0),
    user 3 (.delegate (2 : ℕ) 5 0 1), user 3 (.scheduleDelegatorBondLess (1 : ℕ) 4),
    user 3 .scheduleLeaveDelegators]

theorem pending_consistent_overtaken : PendingConsistent (after overtaken) :=
  pending_consistent runtime_proper.placed (fun _ => freeBalance_le) (Run.play fun _ _ => trivial)

/-- Account 3 is to revoke its delegation of nothing to account 1 when its state goes with
account 2. -/
def orphaned : List (Move (runtime 0)) :=
  [user 1 (.joinCandidates 10 0), user 2 (.joinCandidates 10 1), user 3 (.delegate (1 : ℕ) 0 0 0),
    user 3 (.delegate (2 : ℕ) 5 0 1), user 3 (.scheduleRevokeDelegation (1 : ℕ)),
    user 2 (.scheduleLeaveCandidates 2), .block 10, user 4 (.executeLeaveCandidates (2 : ℕ) 1)]

/-- The request is left without a delegator. -/
theorem request_orphaned : ¬ ∀ R : Runtime, (∀ w a, R.freeBalance w a ≤ maxBalance) →
    ∀ (world : R.World) (tr : List (State R × Move R)) (s : State R),
    Runs (State.genesis world) tr s → PendingConsistent s := by
  intro h
  have hpending : PendingConsistent (after orphaned) :=
    h (runtime 0) (fun _ => freeBalance_le) _ _ _ (Run.play fun _ _ => trivial)
  have hrequests : (after orphaned).delegationScheduledRequests (1 : ℕ) =
      [⟨(3 : ℕ), 2, .revoke 0⟩] := by decide +kernel
  have hnone : (after orphaned).delegatorState.get (3 : ℕ) = none := by decide +kernel
  obtain ⟨D, a, hD, -⟩ := hpending.live (1 : ℕ) ⟨(3 : ℕ), 2, .revoke 0⟩
    (hrequests ▸ List.mem_singleton_self _)
  rw [hnone] at hD
  cases hD

end Witness
end Staking
end ZkNft
