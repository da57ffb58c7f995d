import ZkNft.Staking.Recount
import ZkNft.Staking.Supply

/-! The pool of active candidates against their metadata. -/

namespace ZkNft
namespace Staking
open Keyed StorageMap

variable {R : Runtime}

/-- The pool is ordered by owner, and holds the active candidates with their counted stake. -/
structure PoolExact (pool : List (Bond R.Account))
    (info : StorageMap R.Account CandidateMetadata) : Prop where
  ordered : ByOwner pool
  mem_iff : ∀ b, b ∈ pool ↔
    ∃ m, info.get b.owner = some m ∧ m.status = .active ∧ b.amount = m.totalCounted

section Updates
variable {pool pool' : List (Bond R.Account)} {info : StorageMap R.Account CandidateMetadata}
  {c : R.Account} {m m' : CandidateMetadata} {n : ℕ}

theorem isActive_iff : m.isActive = true ↔ m.status = .active := decide_eq_true_iff

/-- What `update_active` makes of the pool. -/
def updatedPool (pool : List (Bond R.Account)) (c : R.Account) (n : ℕ) : List (Bond R.Account) :=
  (OrderedSet.insert ((OrderedSet.remove pool c).getD pool) ⟨c, n⟩).getD
    ((OrderedSet.remove pool c).getD pool)

theorem updatedPool_spec (h : ByOwner pool) : ByOwner (updatedPool pool c n) ∧
    ∀ b, b ∈ updatedPool pool c n ↔ b = ⟨c, n⟩ ∨ b ∈ pool ∧ b.owner ≠ c := by
  obtain ⟨hordered, hmem⟩ := OrderedSet.remove_getD h c
  have hnew : ∀ y ∈ (OrderedSet.remove pool c).getD pool, y.owner ≠ c :=
    fun y hy => ((hmem y).mp hy).2
  obtain ⟨l, hl⟩ := OrderedSet.insert_of_new (x := ⟨c, n⟩) hordered hnew
  obtain ⟨hperm, hordered', -⟩ := OrderedSet.insert_eq_some hordered hl
  unfold updatedPool
  rw [hl, Option.getD_some]
  refine ⟨hordered', ?_⟩
  intro b
  rw [hperm.mem_iff, List.mem_cons, hmem]

namespace PoolExact
variable (h : PoolExact pool info)
include h

/-- A pool in which only the entry of `c` changes. -/
theorem of_mem (hordered : ByOwner pool')
    (hmem : ∀ b, b ∈ pool' ↔ b = ⟨c, m'.totalCounted⟩ ∧ m'.status = .active ∨
      b ∈ pool ∧ b.owner ≠ c) : PoolExact pool' (info.insert c m') := by
  refine ⟨hordered, ?_⟩
  intro b
  rw [hmem]
  by_cases hb : b.owner = c
  · rw [hb, get_insert_self]
    constructor
    · rintro (⟨rfl, hactive⟩ | ⟨-, hne⟩)
      · exact ⟨m', rfl, hactive, rfl⟩
      · exact absurd rfl hne
    · intro ⟨m, hm, hactive, hamount⟩
      obtain rfl := Option.some.inj hm
      obtain ⟨owner, amount⟩ := b
      exact .inl ⟨by rw [← hb, ← hamount], hactive⟩
  · rw [get_insert_of_ne _ _ hb, ← h.mem_iff]
    constructor
    · rintro (⟨rfl, -⟩ | ⟨hb', -⟩)
      · exact absurd rfl hb
      · exact hb'
    · exact fun hb' => .inr ⟨hb', hb⟩

theorem activate (hactive : m'.status = .active) :
    PoolExact (updatedPool pool c m'.totalCounted) (info.insert c m') := by
  obtain ⟨hordered, hmem⟩ := updatedPool_spec (c := c) (n := m'.totalCounted) h.ordered
  apply h.of_mem hordered
  intro b
  rw [hmem, and_iff_left hactive]

theorem deactivate (hidle : m'.status ≠ .active) :
    PoolExact ((OrderedSet.remove pool c).getD pool) (info.insert c m') := by
  obtain ⟨hordered, hmem⟩ := OrderedSet.remove_getD h.ordered c
  apply h.of_mem hordered
  intro b
  rw [hmem]
  exact (or_iff_right fun hb => hidle hb.2).symm

/-- A candidate that was not in the pool comes in. -/
theorem comeIn (hactive : m'.status = .active)
    (hpool : OrderedSet.insert pool ⟨c, m'.totalCounted⟩ = some pool') :
    PoolExact pool' (info.insert c m') := by
  obtain ⟨hperm, hordered, hnew⟩ := OrderedSet.insert_eq_some h.ordered hpool
  apply h.of_mem hordered
  intro b
  rw [hperm.mem_iff, List.mem_cons, and_iff_left hactive]
  exact or_congr_right (iff_self_and.mpr fun hb => hnew b hb)

/-- A candidate stays as it is in the pool. -/
theorem stay (hm : info.get c = some m) (hstatus : m'.status = m.status)
    (hcount : m'.status = .active → m'.totalCounted = m.totalCounted) :
    PoolExact pool (info.insert c m') := by
  apply h.of_mem h.ordered
  intro b
  constructor
  · intro hb
    by_cases hbc : b.owner = c
    · obtain ⟨m₁, hm₁, hactive, hamount⟩ := (h.mem_iff b).mp hb
      rw [hbc, hm] at hm₁
      obtain rfl := Option.some.inj hm₁
      rw [← hstatus] at hactive
      obtain ⟨owner, amount⟩ := b
      exact .inl ⟨by rw [← hbc, hcount hactive, ← hamount], hactive⟩
    · exact .inr ⟨hb, hbc⟩
  · rintro (⟨rfl, hactive⟩ | ⟨hb, -⟩)
    · exact (h.mem_iff _).mpr ⟨m, hm, hstatus ▸ hactive, hcount hactive⟩
    · exact hb

/-- The pool after new metadata of a candidate. -/
theorem poolAfter (hm : info.get c = some m) (hstatus : m'.status = m.status) :
    PoolExact (poolAfter pool c m m') (info.insert c m') := by
  unfold Staking.poolAfter
  split_ifs with hchange
  · exact h.activate (isActive_iff.mp hchange.2)
  · apply h.stay hm hstatus
    intro hactive
    by_contra hne
    exact hchange ⟨Ne.symm hne, isActive_iff.mpr hactive⟩

theorem reactivate (hm : info.get c = some m) (hactive : m.status = .active) :
    PoolExact (updatedPool pool c m.totalCounted) info := by
  have hpool := h.activate (c := c) hactive
  rw [insert_of_get hm] at hpool
  exact hpool

/-- A candidate goes that is not in the pool. -/
theorem remove (hm : info.get c = some m) (hidle : m.status ≠ .active) :
    PoolExact pool (info.remove c) := by
  refine ⟨h.ordered, ?_⟩
  intro b
  rw [h.mem_iff]
  by_cases hb : b.owner = c
  · rw [hb, get_remove_self, hm]
    constructor
    · rintro ⟨m₁, hm₁, hactive, -⟩
      obtain rfl := Option.some.inj hm₁
      exact absurd hactive hidle
    · rintro ⟨m₁, hnone, -⟩
      cases hnone
  · rw [get_remove_of_ne _ hb]

end PoolExact
end Updates

/-- Every candidate counts its bond with the total of its top list. -/
def Counted (s : State R) : Prop := ∀ c m, s.candidateInfo.get c = some m →
  ∃ top, s.topDelegations.get c = some top ∧ m.totalCounted = satAdd m.bond top.total

/-- The pool and the counted stakes stay right. -/
structure Recounts (s s' : State R) : Prop where
  pool : PoolExact s.candidatePool s.candidateInfo → PoolExact s'.candidatePool s'.candidateInfo
  counted : Counted s → Counted s'

namespace Recounts
variable {s s₁ s' : State R} {c : R.Account} {m m' : CandidateMetadata}

theorem of_counts (h : counts s' = counts s) : Recounts s s' := by
  obtain ⟨hinfo, hpool, htop⟩ := counts_eq.mp h
  constructor
  · rw [hinfo, hpool]
    exact id
  · unfold Counted
    rw [hinfo, htop]
    exact id

theorem of_keeps {α : Type} {x : Update R α} {a : α} (hx : x.Keeps counts)
    (h : x s = (.ok a, s')) : Recounts s s' := .of_counts (hx.run h)

theorem trans (h : Recounts s s₁) (h' : Recounts s₁ s') : Recounts s s' :=
  ⟨h'.pool ∘ h.pool, h'.counted ∘ h.counted⟩

/-- New metadata is stored behind an operation on the lists. -/
theorem of_recounted (h : Recounted c m m' s s₁) (hm : s.candidateInfo.get c = some m)
    (hinfo : s'.candidateInfo = s₁.candidateInfo.insert c m')
    (hpool : s'.candidatePool = s₁.candidatePool) (htop : s'.topDelegations = s₁.topDelegations) :
    Recounts s s' := by
  constructor
  · intro hs
    rw [hinfo, h.info, hpool, h.pool]
    exact hs.poolAfter hm h.status
  · intro hs
    unfold Counted
    rw [hinfo, h.info, htop]
    apply forall_insert
    · rcases h.counted with ⟨hcount, hsame⟩ | hcount
      · obtain ⟨top, htop, hm⟩ := hs c m hm
        exact ⟨top, hsame.trans htop, by rw [hcount, hm, h.bond]⟩
      · rw [h.bond]
        exact hcount
    · intro b m₁ hb hm₁
      rw [h.others b hb]
      exact hs b m₁ hm₁

end Recounts

section Delegations
variable {s s' : State R} {c d : R.Account} {u : PUnit} {origin : Origin R}

theorem delegate_recounts {a n k : ℕ} (h : delegate origin c a n k s = (.ok u, s')) :
    Recounts s s' := by
  obtain ⟨_, _, m, m', _, s₁, s₂, -, -, -, hm, hadd, hlock, rfl⟩ := delegate_ok h
  obtain ⟨hinfo, hpool, htop⟩ :=
    counts_eq.mp ((adjustBondLock_keeps offDelegators_counts _ _).run hlock)
  apply Recounts.of_recounted (addDelegation_recounted hadd) hm
  · exact congrArg (fun i : StorageMap _ _ => i.insert c m') hinfo
  · exact hpool
  · exact htop

theorem delegatorLeavesCandidate_recounts {a : ℕ}
    (h : delegatorLeavesCandidate c d a s = (.ok u, s')) : Recounts s s' := by
  obtain ⟨m, hm, h⟩ := getOr_bind_ok.mp h
  obtain ⟨m', s₁, hrm, h⟩ := Tx.bind_run_ok.mp h
  obtain rfl := Tx.modify_ok.mp h
  exact .of_recounted (rmDelegationIfExists_recounted hrm) hm rfl rfl rfl

theorem delegatorLeavesCandidate_clean (c d : R.Account) (a : ℕ) :
    (delegatorLeavesCandidate c d a : Update R PUnit).Clean := by
  unfold delegatorLeavesCandidate
  apply Tx.Clean.read_bind
  intro m
  apply Tx.Clean.bind (rmDelegationIfExists_clean a)
  exact fun _ => .modify _

theorem leaveOrLog_recounts {a : ℕ} (h : leaveOrLog c d a s = (.ok u, s')) : Recounts s s' := by
  rcases (delegatorLeavesCandidate_clean c d a).recover_ok h with h | h
  · exact delegatorLeavesCandidate_recounts h
  · obtain ⟨-, rfl⟩ := Tx.pure_ok.mp h
    exact .of_counts rfl

theorem leaveAll_recounts (bonds : List (Bond R.Account)) {s : State R}
    (h : leaveAll d bonds s = (.ok u, s')) : Recounts s s' := by
  induction bonds generalizing s with
  | nil =>
    obtain ⟨-, rfl⟩ := Tx.pure_ok.mp h
    exact .of_counts rfl
  | cons bond bonds ih =>
    obtain ⟨_, s₁, hleave, h⟩ := Tx.bind_run_ok.mp h
    exact (leaveOrLog_recounts hleave).trans (ih h)

theorem leaveAllDeprecated_recounts (bonds : List (Bond R.Account)) {s : State R}
    {D : Delegator R.Account} (h : leaveAllDeprecated d D bonds s = (.ok u, s')) :
    Recounts s s' := by
  induction bonds generalizing s D with
  | nil =>
    obtain ⟨-, rfl⟩ := Tx.pure_ok.mp h
    exact .of_counts rfl
  | cons bond bonds ih =>
    obtain ⟨_, s₁, hleave, h⟩ := Tx.bind_run_ok.mp h
    obtain ⟨D', s₂, hremove, h⟩ := Tx.bind_run_ok.mp h
    have hremoved : Recounts s₁ s₂ :=
      .of_keeps (delegationRemoveRequestWithState_keeps offDelegators_counts _ _ _) hremove
    exact ((leaveOrLog_recounts hleave).trans hremoved).trans (ih h)

theorem validateRevokes_keeps {τ : Type} {f : State R → τ} (d : R.Account)
    (bonds : List (Bond R.Account)) : (validateRevokes d bonds).Keeps f := by
  induction bonds with
  | nil => exact .pure _
  | cons bond bonds ih =>
    apply Tx.Keeps.bind (.read _)
    intro _
    apply Tx.Keeps.bind (.read _)
    intro _
    apply Tx.Keeps.bind (.read _)
    exact fun _ => ih.bind fun _ => .pure _

theorem executeLeaveDelegators_recounts {n : ℕ}
    (h : executeLeaveDelegators origin d n s = (.ok u, s')) : Recounts s s' := by
  obtain ⟨D, -, ⟨_, s₁, -, -, hleave, rfl⟩ |
    ⟨validated, s₁, s₂, s₃, -, hvalidate, hleave, hlock, rfl⟩⟩ := executeLeaveDelegators_cases h
  · exact (leaveAllDeprecated_recounts _ hleave).trans (.of_counts rfl)
  · apply (Recounts.of_keeps (validateRevokes_keeps _ _) hvalidate).trans
    apply (leaveAll_recounts _ hleave).trans
    apply (Recounts.of_keeps (adjustBondLock_keeps offDelegators_counts _ _) hlock).trans
    obtain ⟨requests, hset, -⟩ := setAllRequests_eq (s := s₃)
      (validated.map fun x => (x.1.owner, x.2))
    rw [hset]
    exact .of_counts rfl

theorem executeRevoke_recounts {D : Delegator R.Account} {a : ℕ}
    {rest : List (ScheduledRequest R.Account)}
    (h : executeRevoke c d D a rest s = (.ok u, s')) : Recounts s s' := by
  unfold executeRevoke at h
  have h := ite_ensure_ok h
  obtain ⟨⟨n, D'⟩, s₁, hrm, h⟩ := Tx.bind_run_ok.mp h
  obtain ⟨_, s₂, hleave, h⟩ := Tx.bind_run_ok.mp h
  obtain rfl := Tx.modify_ok.mp h
  apply (Recounts.of_keeps (rmDelegation_keeps offDelegators_counts _ _) hrm).trans
  exact (delegatorLeavesCandidate_recounts hleave).trans (.of_counts rfl)

theorem executeDecrease_recounts {D : Delegator R.Account} {a : ℕ}
    {rest : List (ScheduledRequest R.Account)}
    (h : executeDecrease c d D a rest s = (.ok u, s')) : Recounts s s' := by
  obtain ⟨_, m, m', _, s₁, s₂, -, -, -, -, hm, -, hlock, hdecrease, rfl⟩ := executeDecrease_ok h
  have hkeep := (adjustBondLock_keeps offDelegators_counts _ _).run hlock
  have hbefore : Recounted c m m' s s₂ :=
    (decreaseDelegation_recounted hdecrease).after hkeep (sameCount_refl m)
  exact .of_recounted hbefore hm rfl rfl rfl

theorem storeIncrease_recounts {D : Delegator R.Account} {before more : ℕ}
    (h : D.storeIncrease c before more s = (.ok u, s')) : Recounts s s' := by
  unfold Delegator.storeIncrease at h
  obtain ⟨_, s₁, hlock, h⟩ := Tx.bind_run_ok.mp h
  have hkeep := (adjustBondLock_keeps offDelegators_counts _ _).run hlock
  obtain ⟨m, hm, h⟩ := getOr_bind_ok.mp h
  obtain ⟨m', s₂, hincrease, h⟩ := Tx.bind_run_ok.mp h
  have hrecounts : Recounts s { s₂ with candidateInfo := s₂.candidateInfo.insert c m' } :=
    (Recounts.of_counts hkeep).trans
      (.of_recounted (increaseDelegation_recounted hincrease) hm rfl rfl rfl)
  dsimp only at h
  split_ifs at h with hactive
  · obtain ⟨_, s₃, hupdate, h⟩ := Tx.bind_run_ok.mp h
    obtain rfl := Tx.modify_ok.mp h
    obtain ⟨-, rfl⟩ := Prod.mk.inj hupdate
    apply hrecounts.trans
    exact ⟨fun hs => hs.reactivate (get_insert_self _ _ _) (isActive_iff.mp hactive.1), id⟩
  · obtain rfl := Tx.modify_ok.mp h
    exact hrecounts.trans (.of_counts rfl)

theorem delegatorBondMore_recounts {more : ℕ}
    (h : delegatorBondMore origin c more s = (.ok u, s')) : Recounts s s' := by
  obtain ⟨_, _, _, -, -, -, hstore⟩ := delegatorBondMore_ok h
  exact storeIncrease_recounts hstore

theorem executeDelegationRequest_recounts
    (h : executeDelegationRequest origin d c s = (.ok u, s')) : Recounts s s' := by
  obtain ⟨_, _, _, _, -, -, -, -, ⟨a, -, h⟩ | ⟨less, -, h⟩⟩ := executeDelegationRequest_ok h
  · exact executeRevoke_recounts h
  · exact executeDecrease_recounts h

section Delegators
variable {τ : Type} {f : State R → τ}

theorem keeps_setAllRequests (hf : OffDelegators f)
    (updated : List (R.Account × List (ScheduledRequest R.Account)))
    (delegatorState : StorageMap R.Account (Delegator R.Account)) :
    f { s.setAllRequests updated with delegatorState } = f s := by
  obtain ⟨requests, hset, -⟩ := setAllRequests_eq (s := s) updated
  rw [hset]
  exact hf s delegatorState requests s.world

theorem delegationScheduleRevoke_keeps (hf : OffDelegators f) (c d : R.Account) :
    (delegationScheduleRevoke c d).Keeps f := by
  unfold delegationScheduleRevoke
  apply Tx.Keeps.bind (.read _)
  intro D
  apply Tx.Keeps.bind (.read _)
  intro requests
  apply Tx.Keeps.bind (.read _)
  intro _
  apply Tx.Keeps.bind (.read _)
  intro a
  apply Tx.Keeps.bind (.read _)
  exact fun _ => .modify fun s => hf s _ _ s.world

theorem delegationScheduleBondDecrease_keeps (hf : OffDelegators f) (c d : R.Account) (less : ℕ) :
    (delegationScheduleBondDecrease c d less).Keeps f := by
  unfold delegationScheduleBondDecrease
  apply Tx.Keeps.bind (.read _)
  intro D
  apply Tx.Keeps.bind (.read _)
  intro requests
  apply Tx.Keeps.bind (.read _)
  intro _
  apply Tx.Keeps.bind (.read _)
  intro a
  apply Tx.Keeps.bind (.read _)
  intro _
  apply Tx.Keeps.bind (.read _)
  intro _
  apply Tx.Keeps.bind (.read _)
  intro _
  apply Tx.Keeps.bind (.read _)
  exact fun _ => .modify fun s => hf s _ _ s.world

theorem delegationCancelRequest_keeps (hf : OffDelegators f) (c d : R.Account) :
    (delegationCancelRequest c d).Keeps f := by
  unfold delegationCancelRequest
  apply Tx.Keeps.bind (.read _)
  intro D
  apply Tx.Keeps.bind (.read _)
  intro requests
  apply Tx.Keeps.bind (.read _)
  exact fun _ => .modify fun s => hf s _ _ s.world

theorem delegatorScheduleRevokeAll_keeps (hf : OffDelegators f) (d : R.Account) :
    (delegatorScheduleRevokeAll d).Keeps f := by
  unfold delegatorScheduleRevokeAll
  apply Tx.Keeps.bind (.read _)
  intro D
  apply Tx.Keeps.bind (.read _)
  intro now
  apply Tx.Keeps.bind (.read _)
  intro x
  apply Tx.Keeps.bind (.read _)
  exact fun _ => .modify fun _ => keeps_setAllRequests hf _ _

theorem delegatorCancelScheduledRevokeAll_keeps (hf : OffDelegators f) (d : R.Account) :
    (delegatorCancelScheduledRevokeAll d).Keeps f := by
  unfold delegatorCancelScheduledRevokeAll
  apply Tx.Keeps.bind (.read _)
  intro D
  cases D.status with
  | leaving when => exact .modify fun s => hf s _ s.delegationScheduledRequests s.world
  | active =>
    apply Tx.Keeps.bind (.read _)
    intro _
    apply Tx.Keeps.bind (.read _)
    exact fun _ => .modify fun _ => keeps_setAllRequests hf _ _

end Delegators

/-- A call of a delegator reads who signed it first. -/
theorem signed_recounts {f : R.Account → Update R PUnit} (hf : ∀ who, (f who).Keeps counts)
    (h : Tx.transactional (do
      let who ← Tx.read fun _ => ensureSigned origin
      f who) s = (.ok u, s')) : Recounts s s' := by
  rw [Tx.transactional_run_ok, Tx.read_bind_ok] at h
  obtain ⟨who, -, h⟩ := h
  exact .of_keeps (hf who) h

end Delegations

/-- What a call does to the pool, and to the counted stakes as long as nothing saturates. -/
structure Restakes (s s' : State R) : Prop where
  pool : PoolExact s.candidatePool s.candidateInfo → PoolExact s'.candidatePool s'.candidateInfo
  counted : R.Lawful → Sound s → TopsExact s → Counted s → Counted s'

theorem Recounts.restakes {s s' : State R} (h : Recounts s s') : Restakes s s' :=
  ⟨h.pool, fun _ _ _ => h.counted⟩

section Candidates
variable {s s' : State R} {c : R.Account} {m m' : CandidateMetadata} {u : PUnit}
  {origin : Origin R}

theorem Restakes.of_counts (h : counts s' = counts s) : Restakes s s' :=
  (Recounts.of_counts h).restakes

/-- New metadata is stored, with the same top list. -/
theorem Restakes.edit (hm : s.candidateInfo.get c = some m)
    (hinfo : s'.candidateInfo = s.candidateInfo.insert c m')
    (htop : s'.topDelegations = s.topDelegations)
    (hpool : PoolExact s.candidatePool s.candidateInfo →
      PoolExact s'.candidatePool (s.candidateInfo.insert c m'))
    (hcount : ∀ top : Delegations R.Account, R.Lawful → Sound s → TopsExact s →
      s.topDelegations.get c = some top → m.totalCounted = satAdd m.bond top.total →
      m'.totalCounted = satAdd m'.bond top.total) : Restakes s s' := by
  refine ⟨?_, ?_⟩
  · rw [hinfo]
    exact hpool
  · intro hL hs hexact hcounted
    unfold Counted
    rw [hinfo, htop]
    apply forall_insert
    · obtain ⟨top, htop, hm⟩ := hcounted c m hm
      exact ⟨top, htop, hcount top hL hs hexact htop hm⟩
    · exact fun b m₁ _ hm₁ => hcounted b m₁ hm₁

theorem storeRemoved_restakes (h : storeRemoved c m' s = (.ok u, s'))
    (hm : s.candidateInfo.get c = some m) (hidle : m'.status ≠ .active) (hbond : m'.bond = m.bond)
    (hcount : m'.totalCounted = m.totalCounted) : Restakes s s' := by
  obtain rfl := Tx.modify_ok.mp h
  refine Restakes.edit hm rfl rfl ?_ ?_
  · exact fun hs => hs.deactivate hidle
  · intro top _ _ _ _ hold
    rw [hcount, hbond]
    exact hold

theorem storeInserted_restakes (h : storeInserted c m' s = (.ok u, s'))
    (hm : s.candidateInfo.get c = some m) (hactive : m'.status = .active)
    (hbond : m'.bond = m.bond) (hcount : m'.totalCounted = m.totalCounted) : Restakes s s' := by
  obtain ⟨pool, hpool, h⟩ := getOr_bind_ok.mp h
  obtain rfl := Tx.modify_ok.mp h
  refine Restakes.edit hm rfl rfl ?_ ?_
  · exact fun hs => hs.comeIn hactive hpool
  · intro top _ _ _ _ hold
    rw [hcount, hbond]
    exact hold

/-- The pending request is all that changes. -/
theorem request_restakes (hm : s.candidateInfo.get c = some m)
    {request : Option CandidateBondLessRequest} :
    Restakes s { s with candidateInfo := s.candidateInfo.insert c { m with request } } := by
  refine Restakes.edit hm rfl rfl ?_ ?_
  · intro hs
    exact hs.stay hm rfl fun _ => rfl
  · intro top _ _ _ _ hold
    exact hold

theorem joinCandidates_restakes {bond n : ℕ} (h : joinCandidates origin bond n s = (.ok u, s')) :
    Restakes s s' := by
  obtain ⟨c, pool, world, -, -, -, -, hpool, hfree, rfl⟩ := joinCandidates_ok h
  refine ⟨fun hs => hs.comeIn rfl hpool, ?_⟩
  intro hL _ _ hcounted
  apply forall_insert
  · have hle : bond ≤ maxBalance := hfree.trans (hL.free_le world c)
    exact ⟨.empty, get_insert_self _ _ _, (Nat.min_eq_left hle).symm⟩
  · intro b m hb hm
    obtain ⟨top, htop, hcount⟩ := hcounted b m hm
    exact ⟨top, (get_insert_of_ne _ _ hb).trans htop, hcount⟩

theorem scheduleLeaveCandidates_restakes {n : ℕ}
    (h : scheduleLeaveCandidates origin n s = (.ok u, s')) : Restakes s s' := by
  obtain ⟨c, m, -, hm, -, hstore⟩ := scheduleLeaveCandidates_ok h
  exact storeRemoved_restakes hstore hm (fun hactive => by cases hactive) rfl rfl

theorem executeLeaveCandidates_restakes {n : ℕ}
    (h : executeLeaveCandidates origin c n s = (.ok u, s')) : Restakes s s' := by
  obtain ⟨m, when, _, _, s₁, s₂, hm, hleaving, -, -, htop, -, hbottom, rfl⟩ :=
    executeLeaveCandidates_ok h
  have ⟨hinfo, hpool, htops⟩ :=
    counts_eq.mp ((returnStakes_keeps offDelegators_counts _ _).run htop)
  have ⟨hinfo', hpool', htops'⟩ :=
    counts_eq.mp ((returnStakes_keeps offDelegators_counts _ _).run hbottom)
  constructor
  · intro hs
    show PoolExact s₂.candidatePool (s₂.candidateInfo.remove c)
    rw [hinfo', hpool', hinfo, hpool]
    refine hs.remove hm ?_
    rw [hleaving]
    exact CollatorStatus.noConfusion
  · intro _ _ _ hcounted b m' hm'
    have htops'' : s₂.topDelegations = s.topDelegations.remove c := htops'.trans htops
    have hinfo'' : s₂.candidateInfo = s.candidateInfo := hinfo'.trans hinfo
    show ∃ top, s₂.topDelegations.get b = some top ∧ _
    rw [htops'']
    revert b m' hm'
    rw [hinfo'']
    apply forall_remove
    intro b m' hb hm'
    rw [get_remove_of_ne _ hb]
    exact hcounted b m' hm'

theorem cancelLeaveCandidates_restakes {n : ℕ}
    (h : cancelLeaveCandidates origin n s = (.ok u, s')) : Restakes s s' := by
  obtain ⟨c, m, -, hm, hstore⟩ := cancelLeaveCandidates_ok h
  exact storeInserted_restakes hstore hm rfl rfl rfl

theorem goOffline_restakes (h : goOffline origin s = (.ok u, s')) : Restakes s s' := by
  obtain ⟨c, m, hm, -, hstore⟩ := goOffline_ok h
  exact storeRemoved_restakes hstore hm (fun hactive => by cases hactive) rfl rfl

theorem goOnline_restakes (h : goOnline origin s = (.ok u, s')) : Restakes s s' := by
  obtain ⟨c, m, hm, -, hstore⟩ := goOnline_ok h
  exact storeInserted_restakes hstore hm rfl rfl rfl

/-- A new stake that leaves the status. -/
theorem PoolExact.pooled (h : PoolExact s.candidatePool s.candidateInfo)
    (hm : s.candidateInfo.get c = some m) (hstatus : m'.status = m.status) :
    PoolExact (s.pooled c m') (s.candidateInfo.insert c m') := by
  unfold State.pooled
  split_ifs with hactive
  · exact h.activate (isActive_iff.mp hactive)
  · exact h.stay hm hstatus fun hm' => absurd (isActive_iff.mpr hm') hactive

/-- A sum that saturates is the same in any order. -/
theorem satAdd_right_comm (a b n : ℕ) : satAdd (satAdd a b) n = satAdd (satAdd a n) b := by
  unfold satAdd
  omega

theorem candidateBondMore_restakes {more : ℕ}
    (h : candidateBondMore origin more s = (.ok u, s')) : Restakes s s' := by
  obtain ⟨c, m, m', hm, -, rfl, rfl⟩ := candidateBondMore_ok h
  refine Restakes.edit hm rfl rfl ?_ ?_
  · exact fun hs => hs.pooled hm rfl
  · intro top _ _ _ _ hold
    show satAdd m.totalCounted more = satAdd (satAdd m.bond more) top.total
    rw [hold, satAdd_right_comm]

theorem scheduleCandidateBondLess_restakes {less : ℕ}
    (h : scheduleCandidateBondLess origin less s = (.ok u, s')) : Restakes s s' := by
  obtain ⟨c, m, -, hm, -, rfl⟩ := scheduleCandidateBondLess_ok h
  exact request_restakes hm

/-- The bond and the top list are within what a balance can be. -/
theorem Sound.count_le (hL : R.Lawful) (hs : Sound s) (hexact : TopsExact s)
    {top : Delegations R.Account} (hm : s.candidateInfo.get c = some m)
    (htop : s.topDelegations.get c = some top) : m.bond + top.total ≤ maxBalance := by
  have hfits := hs.fits hL c
  have htotal : top.total = amounts top.delegations := hexact c top htop
  rw [State.stake, hm, htop, stakeOf, Option.elim_some, Option.elim_some] at hfits
  omega

theorem executeCandidateBondLess_restakes
    (h : executeCandidateBondLess origin c s = (.ok u, s')) : Restakes s s' := by
  obtain ⟨m, m', r, hm, hr, -, rfl, rfl⟩ := executeCandidateBondLess_ok h
  refine Restakes.edit hm rfl rfl ?_ ?_
  · exact fun hs => hs.pooled hm rfl
  · intro top hL hs hexact htop hold
    have hmax := hs.count_le hL hexact hm htop
    have hless := hs.less c m r hm hr
    show m.totalCounted - r.amount = satAdd (m.bond - r.amount) top.total
    rw [hold, satAdd_eq hmax, satAdd_eq (by omega)]
    omega

theorem cancelCandidateBondLess_restakes
    (h : cancelCandidateBondLess origin s = (.ok u, s')) : Restakes s s' := by
  obtain ⟨c, m, hm, rfl⟩ := cancelCandidateBondLess_ok h
  exact request_restakes hm

theorem setTotalSelected_restakes {n : ℕ} (h : setTotalSelected origin n s = (.ok u, s')) :
    Restakes s s' := by
  obtain rfl := setTotalSelected_ok h
  exact .of_counts rfl

theorem setBlocksPerRound_restakes {n : ℕ} (h : setBlocksPerRound origin n s = (.ok u, s')) :
    Restakes s s' := by
  obtain rfl := setBlocksPerRound_ok h
  exact .of_counts rfl

theorem Call.dispatch_restakes {call : Call R} (h : call.dispatch origin s = (.ok u, s')) :
    Restakes s s' := by
  cases call with
  | setTotalSelected => exact setTotalSelected_restakes h
  | setBlocksPerRound => exact setBlocksPerRound_restakes h
  | joinCandidates => exact joinCandidates_restakes h
  | scheduleLeaveCandidates => exact scheduleLeaveCandidates_restakes h
  | executeLeaveCandidates => exact executeLeaveCandidates_restakes h
  | cancelLeaveCandidates => exact cancelLeaveCandidates_restakes h
  | goOffline => exact goOffline_restakes h
  | goOnline => exact goOnline_restakes h
  | candidateBondMore => exact candidateBondMore_restakes h
  | scheduleCandidateBondLess => exact scheduleCandidateBondLess_restakes h
  | executeCandidateBondLess => exact executeCandidateBondLess_restakes h
  | cancelCandidateBondLess => exact cancelCandidateBondLess_restakes h
  | delegate => exact (delegate_recounts h).restakes
  | scheduleLeaveDelegators =>
    exact (signed_recounts (delegatorScheduleRevokeAll_keeps offDelegators_counts) h).restakes
  | executeLeaveDelegators => exact (executeLeaveDelegators_recounts h).restakes
  | cancelLeaveDelegators =>
    exact (signed_recounts
      (delegatorCancelScheduledRevokeAll_keeps offDelegators_counts) h).restakes
  | scheduleRevokeDelegation c =>
    exact (signed_recounts (delegationScheduleRevoke_keeps offDelegators_counts c) h).restakes
  | delegatorBondMore => exact (delegatorBondMore_recounts h).restakes
  | scheduleDelegatorBondLess c less =>
    exact (signed_recounts
      (fun d => delegationScheduleBondDecrease_keeps offDelegators_counts c d less) h).restakes
  | executeDelegationRequest => exact (executeDelegationRequest_recounts h).restakes
  | cancelDelegationRequest c =>
    exact (signed_recounts (delegationCancelRequest_keeps offDelegators_counts c) h).restakes

theorem Move.next_restakes (s : State R) (m : Move R) : Restakes s (m.next s) := by
  cases m with
  | call origin call =>
    show Restakes s (call.dispatch origin s).2
    by_cases hok : ∃ u, (call.dispatch origin s).1 = .ok u
    · obtain ⟨u, hu⟩ := hok
      exact Call.dispatch_restakes (Prod.ext hu rfl)
    · rw [Call.dispatch_rollback fun u hu => hok ⟨u, hu⟩]
      exact .of_counts rfl
  | block now => exact .of_counts rfl
  | other world => exact .of_counts rfl

end Candidates

theorem PoolExact.genesis (world : R.World) :
    PoolExact (State.genesis world).candidatePool (State.genesis world).candidateInfo := by
  refine ⟨List.Pairwise.nil, ?_⟩
  intro b
  constructor
  · intro hb
    cases hb
  · rintro ⟨m, hm, -⟩
    cases hm

/-- In every state reached, the pool holds the active candidates with their counted stake. -/
theorem pool_exact {world : R.World} {tr : List (State R × Move R)} {s : State R}
    (h : Runs (State.genesis world) tr s) : PoolExact s.candidatePool s.candidateInfo :=
  h.invariant (I := fun s => PoolExact s.candidatePool s.candidateInfo)
    (PoolExact.genesis world) fun s m hs _ => (Move.next_restakes s m).pool hs

open Staking.Sample in
theorem pool_exact_crowded :
    PoolExact (after crowded).candidatePool (after crowded).candidateInfo :=
  pool_exact (Run.play fun _ _ => trivial)

end Staking
end ZkNft
