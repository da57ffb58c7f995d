import ZkNft.Lib.Frame
import ZkNft.Staking.Agreement

/-! What the operations on the lists of a candidate do to the stake that is counted for it. -/

namespace ZkNft
namespace Staking
open Keyed StorageMap

variable {R : Runtime}

section Frames
variable {s s' : State R} {α β : Type} {c d : R.Account}

/-- What the count of a candidate's stake depends on. -/
abbrev counts (s : State R) : StorageMap R.Account CandidateMetadata × List (Bond R.Account) ×
    StorageMap R.Account (Delegations R.Account) :=
  (s.candidateInfo, s.candidatePool, s.topDelegations)

theorem counts_eq : counts s' = counts s ↔ s'.candidateInfo = s.candidateInfo ∧
    s'.candidatePool = s.candidatePool ∧ s'.topDelegations = s.topDelegations := by
  rw [Prod.mk.injEq, Prod.mk.injEq]

/-- `f` does not depend on the delegators, their requests and the balances. -/
def OffDelegators {τ : Type} (f : State R → τ) : Prop :=
  ∀ s delegatorState delegationScheduledRequests world,
    f { s with delegatorState, delegationScheduledRequests, world } = f s

theorem offDelegators_counts : OffDelegators (counts (R := R)) := fun _ _ _ _ => rfl

section Delegators
variable {τ : Type} {f : State R → τ}

/-- A lock is a change of the balances. -/
theorem adjustBondLock_keeps_of_world (hf : ∀ s world, f { s with world } = f s)
    (D : Delegator R.Account) (b : BondAdjust) : (D.adjustBondLock b).Keeps f := by
  unfold Delegator.adjustBondLock
  cases b with
  | increase amount =>
    apply Tx.Keeps.bind (.read _)
    intro _
    apply Tx.Keeps.bind (.read _)
    exact fun _ => .modify fun s => hf s _
  | decrease => exact .modify fun s => hf s _

theorem adjustBondLock_keeps (hf : OffDelegators f) (D : Delegator R.Account) (b : BondAdjust) :
    (D.adjustBondLock b).Keeps f :=
  adjustBondLock_keeps_of_world
    (fun s world => hf s s.delegatorState s.delegationScheduledRequests world) D b

theorem rmDelegation_keeps (hf : OffDelegators f) (D : Delegator R.Account) (c : R.Account) :
    (D.rmDelegation c).Keeps f := by
  unfold Delegator.rmDelegation
  split
  · apply Tx.Keeps.bind
    · apply Tx.Keeps.expectOk
      exact .bind (adjustBondLock_keeps hf _ _) fun _ => .pure _
    · exact fun _ => .pure _
  · exact .pure _

theorem delegationRemoveRequestWithState_keeps (hf : OffDelegators f) (c d : R.Account)
    (D : Delegator R.Account) :
    (delegationRemoveRequestWithState c d D).Keeps f := by
  unfold delegationRemoveRequestWithState
  apply Tx.Keeps.bind (.read _)
  intro requests
  split
  · exact .bind (.modify fun s => hf s s.delegatorState _ s.world) fun _ => .pure _
  · exact .pure _

theorem kick_keeps (hf : OffDelegators f) (c : R.Account) (x : Bond R.Account) :
    (CandidateMetadata.kick c x).Keeps f := by
  unfold CandidateMetadata.kick
  apply Tx.Keeps.bind (.read _)
  intro D
  apply Tx.Keeps.bind (rmDelegation_keeps hf _ _)
  intro _
  apply Tx.Keeps.bind (delegationRemoveRequestWithState_keeps hf _ _ _)
  exact fun _ => .modify fun s => hf s _ s.delegationScheduledRequests s.world

theorem makeRoom_keeps (hf : OffDelegators f) (b : Bool) (c : R.Account)
    (bottom : Delegations R.Account) :
    (CandidateMetadata.makeRoom b c bottom).Keeps f := by
  unfold CandidateMetadata.makeRoom
  apply Tx.Keeps.ite
  · apply Tx.Keeps.bind (.read _)
    exact fun x => .bind (kick_keeps hf c x) fun _ => .pure _
  · exact .pure _

theorem returnStake_keeps (hf : OffDelegators f) (c : R.Account) (x : Bond R.Account) :
    (returnStake c x).Keeps f := by
  unfold returnStake
  apply Tx.Keeps.bind (.read _)
  intro D
  apply Tx.Keeps.bind (rmDelegation_keeps hf _ _)
  rintro ⟨remaining, D'⟩
  cases remaining with
  | some n =>
    apply Tx.Keeps.bind (delegationRemoveRequestWithState_keeps hf _ _ _)
    intro D''
    apply Tx.Keeps.modify
    intro s
    split_ifs
    · exact hf s _ s.delegationScheduledRequests _
    · exact hf s _ s.delegationScheduledRequests s.world
  | none => exact .modify fun s => hf s s.delegatorState s.delegationScheduledRequests _

theorem returnStakes_keeps (hf : OffDelegators f) (c : R.Account) (xs : List (Bond R.Account)) :
    (returnStakes c xs).Keeps f := by
  induction xs with
  | nil => exact .pure _
  | cons x xs ih => exact .bind (returnStake_keeps hf c x) fun _ => ih

end Delegators

theorem getExpect_bind_ok {f : State R → Option α} {msg : String} {g : α → Update R β} {b : β} :
    (getExpect f msg >>= g) s = (.ok b, s') ↔ ∃ a, f s = some a ∧ g a s = (.ok b, s') := by
  rw [getExpect, Tx.read_bind_ok]
  simp only [Exec.expect_eq_ok]

theorem getExpect_noErr (f : State R → Option α) (msg : String) : (getExpect f msg).NoErr := by
  apply Tx.NoErr.read
  intro s e h
  cases hf : f s with
  | none =>
    rw [hf] at h
    cases h
  | some a =>
    rw [hf] at h
    cases h

/-- The first entry of a list, or a stop. -/
theorem head_noErr (l : List α) :
    (Tx.read (fun _ => l.head?.elim (.trap .index) .ok) : Update R α).NoErr := by
  apply Tx.NoErr.read
  intro s e h
  cases l with
  | nil => cases h
  | cons x l => cases h

end Frames

/-- The metadata counts the same stake. -/
structure CandidateMetadata.SameCount (m' m : CandidateMetadata) : Prop where
  totalCounted : m'.totalCounted = m.totalCounted
  bond : m'.bond = m.bond
  status : m'.status = m.status
  request : m'.request = m.request

/-- What an operation on the lists of a candidate does to the counts: the pool follows the metadata,
and the counted stake is the old one or the bond with the total of the new top list. -/
structure Recounted (c : R.Account) (m m' : CandidateMetadata) (s s' : State R) : Prop where
  info : s'.candidateInfo = s.candidateInfo
  pool : s'.candidatePool = poolAfter s.candidatePool c m m'
  bond : m'.bond = m.bond
  status : m'.status = m.status
  request : m'.request = m.request
  others : ∀ b, b ≠ c → s'.topDelegations.get b = s.topDelegations.get b
  counted : m'.totalCounted = m.totalCounted ∧ s'.topDelegations.get c = s.topDelegations.get c ∨
    ∃ top, s'.topDelegations.get c = some top ∧ m'.totalCounted = satAdd m.bond top.total

theorem poolAfter_of_count {pool : List (Bond R.Account)} {c : R.Account}
    {m m' : CandidateMetadata} (h : m'.totalCounted = m.totalCounted) :
    poolAfter pool c m m' = pool := by
  unfold poolAfter
  rw [if_neg]
  exact fun hchange => hchange.1 h.symm

namespace Recounted
variable {s s₁ s' : State R} {c : R.Account} {m m₁ m' : CandidateMetadata}
  {top : Delegations R.Account}

/-- An operation that leaves the counts alone. -/
theorem quiet (hs : counts s' = counts s) (hm : m'.SameCount m) : Recounted c m m' s s' := by
  obtain ⟨hinfo, hpool, htop⟩ := counts_eq.mp hs
  refine ⟨hinfo, ?_, hm.bond, hm.status, hm.request, fun _ _ => by rw [htop],
    .inl ⟨hm.totalCounted, ?_⟩⟩
  · rw [poolAfter_of_count hm.totalCounted]
    exact hpool
  · rw [htop]

/-- A quiet operation before another one. -/
theorem after (hs : counts s₁ = counts s) (hm : m₁.SameCount m)
    (h : Recounted c m₁ m' s₁ s') : Recounted c m m' s s' := by
  obtain ⟨hinfo, hpool, htop⟩ := counts_eq.mp hs
  refine ⟨h.info.trans hinfo, ?_, h.bond.trans hm.bond, h.status.trans hm.status,
    h.request.trans hm.request, ?_, ?_⟩
  · rw [h.pool, hpool]
    unfold poolAfter
    rw [hm.totalCounted]
  · intro b hb
    rw [h.others b hb, htop]
  · rw [← hm.totalCounted, ← hm.bond, ← htop]
    exact h.counted

/-- A quiet operation behind another one. -/
theorem before (h : Recounted c m m₁ s s₁) (hs : counts s' = counts s₁) (hm : m'.SameCount m₁) :
    Recounted c m m' s s' := by
  obtain ⟨hinfo, hpool, htop⟩ := counts_eq.mp hs
  refine ⟨hinfo.trans h.info, ?_, hm.bond.trans h.bond, hm.status.trans h.status,
    hm.request.trans h.request, ?_, ?_⟩
  · rw [hpool, h.pool]
    unfold poolAfter CandidateMetadata.isActive
    rw [hm.totalCounted, hm.status]
  · intro b hb
    rw [htop]
    exact h.others b hb
  · rw [hm.totalCounted, htop]
    exact h.counted

/-- The top list is stored after the metadata was reset for it. -/
theorem reset (hs : s' = { s with
      candidatePool := poolAfter s.candidatePool c m (m.withTop R top)
      topDelegations := s.topDelegations.insert c top }) :
    Recounted c m (m.withTop R top) s s' := by
  rw [hs]
  refine ⟨rfl, rfl, rfl, rfl, rfl, ?_, .inr ⟨top, get_insert_self _ _ _, rfl⟩⟩
  exact fun b hb => get_insert_of_ne _ _ hb

end Recounted

section Operations
variable {s s' : State R} {c d : R.Account} {m m' : CandidateMetadata} {b : Bool}
  {x : Bond R.Account} {top bottom : Delegations R.Account} {less : Option ℕ}

theorem sameCount_refl (m : CandidateMetadata) : m.SameCount m := ⟨rfl, rfl, rfl, rfl⟩

theorem sameCount_reset (bottom : Delegations R.Account) :
    (m.resetBottomData R bottom).SameCount m := ⟨rfl, rfl, rfl, rfl⟩

theorem sameCount_count (n : ℕ) :
    ({ m with delegationCount := n } : CandidateMetadata).SameCount m := ⟨rfl, rfl, rfl, rfl⟩

theorem addBottomDelegation_ok (h : m.addBottomDelegation b c x s = (.ok m', s')) :
    counts s' = counts s ∧ m'.SameCount m := by
  obtain ⟨bottom, -, h⟩ := getExpect_bind_ok.mp h
  obtain ⟨⟨bottom', increase⟩, s₁, hroom, h⟩ := Tx.bind_run_ok.mp h
  dsimp only at h
  rw [Tx.modify_bind_ok] at h
  obtain ⟨rfl, hs'⟩ := Tx.pure_ok.mp h
  have hkeep : counts s₁ = counts s := (makeRoom_keeps offDelegators_counts _ _ _).run hroom
  constructor
  · rw [hs']
    exact hkeep
  · split_ifs
    · exact ⟨rfl, rfl, rfl, rfl⟩
    · exact ⟨rfl, rfl, rfl, rfl⟩

theorem bumpLowestTop_ok {top' : Delegations R.Account}
    (h : m.bumpLowestTop c top s = (.ok (m', top', less), s')) :
    counts s' = counts s ∧ m'.SameCount m := by
  unfold CandidateMetadata.bumpLowestTop at h
  by_cases hfull : top.delegations.length = R.maxTopDelegationsPerCandidate
  · rw [if_pos hfull] at h
    obtain ⟨bumped, -, h⟩ := getExpect_bind_ok.mp h
    obtain ⟨m₁, s₁, hadd, h⟩ := Tx.bind_run_ok.mp h
    obtain ⟨heq, rfl⟩ := Tx.pure_ok.mp h
    obtain ⟨rfl, -⟩ := Prod.mk.inj heq
    exact addBottomDelegation_ok hadd
  · rw [if_neg hfull] at h
    obtain ⟨heq, rfl⟩ := Tx.pure_ok.mp h
    obtain ⟨rfl, -⟩ := Prod.mk.inj heq
    exact ⟨rfl, sameCount_refl _⟩

theorem addTopDelegation_recounted (h : m.addTopDelegation c x s = (.ok (m', less), s')) :
    Recounted c m m' s s' := by
  obtain ⟨top, -, h⟩ := getExpect_bind_ok.mp h
  obtain ⟨⟨m₁, top₁, less₁⟩, s₁, hbump, h⟩ := Tx.bind_run_ok.mp h
  obtain ⟨hs₁, hm₁⟩ := bumpLowestTop_ok hbump
  dsimp only at h
  rw [Tx.bind_run_of_ok CandidateMetadata.resetTopData_run, Tx.modify_bind_ok] at h
  obtain ⟨heq, hs'⟩ := Tx.pure_ok.mp h
  obtain ⟨rfl, -⟩ := Prod.mk.inj heq
  apply Recounted.after hs₁ hm₁
  apply (Recounted.reset hs').before rfl
  split_ifs
  · exact sameCount_count _
  · exact sameCount_refl _

theorem addDelegation_recounted (h : m.addDelegation c x s = (.ok (m', less), s')) :
    Recounted c m m' s s' := by
  unfold CandidateMetadata.addDelegation at h
  split_ifs at h with hfull hlow hbottom
  · exact addTopDelegation_recounted h
  · obtain ⟨-, h⟩ := ensure_bind_ok.mp h
    obtain ⟨m₁, s₁, hadd, h⟩ := Tx.bind_run_ok.mp h
    obtain ⟨heq, rfl⟩ := Tx.pure_ok.mp h
    obtain ⟨rfl, -⟩ := Prod.mk.inj heq
    have ⟨hs, hm⟩ := addBottomDelegation_ok hadd
    exact .quiet hs hm
  · obtain ⟨m₁, s₁, hadd, h⟩ := Tx.bind_run_ok.mp h
    obtain ⟨heq, rfl⟩ := Tx.pure_ok.mp h
    obtain ⟨rfl, -⟩ := Prod.mk.inj heq
    have ⟨hs, hm⟩ := addBottomDelegation_ok hadd
    exact .quiet hs hm
  · obtain ⟨⟨m₁, less₁⟩, s₁, hadd, h⟩ := Tx.bind_run_ok.mp h
    obtain ⟨heq, rfl⟩ := Tx.pure_ok.mp h
    obtain ⟨rfl, -⟩ := Prod.mk.inj heq
    exact addTopDelegation_recounted hadd

theorem bumpHighestBottom_ok {top' : Delegations R.Account}
    (h : m.bumpHighestBottom c top s = (.ok (m', top'), s')) :
    counts s' = counts s ∧ m'.SameCount m := by
  unfold CandidateMetadata.bumpHighestBottom at h
  split_ifs at h
  · obtain ⟨bottom, -, h⟩ := getExpect_bind_ok.mp h
    obtain ⟨highest, -, h⟩ := Tx.read_bind_ok.mp h
    rw [Tx.modify_bind_ok] at h
    obtain ⟨heq, rfl⟩ := Tx.pure_ok.mp h
    obtain ⟨rfl, -⟩ := Prod.mk.inj heq
    exact ⟨rfl, sameCount_reset _⟩
  · obtain ⟨heq, rfl⟩ := Tx.pure_ok.mp h
    obtain ⟨rfl, -⟩ := Prod.mk.inj heq
    exact ⟨rfl, sameCount_refl _⟩

theorem rmTopDelegation_recounted (h : m.rmTopDelegation c d s = (.ok m', s')) :
    Recounted c m m' s s' := by
  obtain ⟨top, -, h⟩ := getExpect_bind_ok.mp h
  obtain ⟨a, -, h⟩ := getOr_bind_ok.mp h
  obtain ⟨⟨m₁, top₁⟩, s₁, hbump, h⟩ := Tx.bind_run_ok.mp h
  obtain ⟨hs₁, hm₁⟩ := bumpHighestBottom_ok hbump
  dsimp only at h
  rw [Tx.bind_run_of_ok CandidateMetadata.resetTopData_run, Tx.modify_bind_ok] at h
  obtain ⟨rfl, hs'⟩ := Tx.pure_ok.mp h
  apply Recounted.after hs₁ hm₁
  exact (Recounted.reset hs').before rfl (sameCount_count _)

theorem rmBottomDelegation_recounted (h : m.rmBottomDelegation c d s = (.ok m', s')) :
    Recounted c m m' s s' := by
  obtain ⟨bottom, -, h⟩ := getExpect_bind_ok.mp h
  obtain ⟨a, -, h⟩ := getOr_bind_ok.mp h
  rw [Tx.modify_bind_ok] at h
  obtain ⟨rfl, rfl⟩ := Tx.pure_ok.mp h
  exact .quiet rfl ⟨rfl, rfl, rfl, rfl⟩

theorem resetTopData_noErr : (m.resetTopData c top : Update R _).NoErr := by
  intro s e s' h
  rw [CandidateMetadata.resetTopData_run] at h
  cases h

theorem rmTopDelegation_clean : (m.rmTopDelegation c d : Update R _).Clean := by
  unfold CandidateMetadata.rmTopDelegation CandidateMetadata.bumpHighestBottom
  apply Tx.Clean.read_bind
  intro top
  apply Tx.Clean.read_bind
  intro a
  apply Tx.NoErr.clean
  apply Tx.NoErr.bind
  · apply Tx.NoErr.ite
    · apply Tx.NoErr.bind (getExpect_noErr _ _)
      intro bottom
      apply Tx.NoErr.bind (head_noErr _)
      exact fun _ => .bind (.modify _) fun _ => .pure _
    · exact .pure _
  · rintro ⟨m₁, top₁⟩
    apply Tx.NoErr.bind resetTopData_noErr
    exact fun _ => .bind (.modify _) fun _ => .pure _

theorem rmBottomDelegation_clean : (m.rmBottomDelegation c d : Update R _).Clean := by
  unfold CandidateMetadata.rmBottomDelegation
  apply Tx.Clean.read_bind
  intro bottom
  apply Tx.Clean.read_bind
  exact fun _ => Tx.NoErr.clean (.bind (.modify _) fun _ => .pure _)

theorem rmDelegationIfExists_clean (a : ℕ) :
    (m.rmDelegationIfExists c d a : Update R _).Clean := by
  unfold CandidateMetadata.rmDelegationIfExists
  apply Tx.Clean.ite rmTopDelegation_clean
  apply Tx.Clean.ite
  · exact .recover _ rmTopDelegation_clean rmBottomDelegation_clean
  · exact rmBottomDelegation_clean

theorem rmDelegationIfExists_recounted {a : ℕ}
    (h : m.rmDelegationIfExists c d a s = (.ok m', s')) : Recounted c m m' s s' := by
  unfold CandidateMetadata.rmDelegationIfExists at h
  split_ifs at h
  · exact rmTopDelegation_recounted h
  · rcases rmTopDelegation_clean.recover_ok h with h | h
    · exact rmTopDelegation_recounted h
    · exact rmBottomDelegation_recounted h
  · exact rmBottomDelegation_recounted h

theorem increaseTopDelegation_recounted {more : ℕ}
    (h : m.increaseTopDelegation c d more s = (.ok m', s')) : Recounted c m m' s s' := by
  obtain ⟨top, -, h⟩ := getExpect_bind_ok.mp h
  obtain ⟨-, h⟩ := ensure_bind_ok.mp h
  rw [Tx.bind_run_of_ok CandidateMetadata.resetTopData_run, Tx.modify_bind_ok] at h
  obtain ⟨rfl, hs'⟩ := Tx.pure_ok.mp h
  exact Recounted.reset hs'

theorem increaseTopDelegation_clean {more : ℕ} :
    (m.increaseTopDelegation c d more : Update R _).Clean := by
  unfold CandidateMetadata.increaseTopDelegation
  apply Tx.Clean.read_bind
  intro top
  apply Tx.Clean.read_bind
  intro _
  apply Tx.NoErr.clean
  apply Tx.NoErr.bind resetTopData_noErr
  exact fun _ => .bind (.modify _) fun _ => .pure _

theorem raiseToTop_recounted {bond more : ℕ} {bottom' : Delegations R.Account}
    (h : m.raiseToTop c d bond more bottom s = (.ok (m', bottom'), s')) :
    Recounted c m m' s s' := by
  obtain ⟨a, -, h⟩ := getOr_bind_ok.mp h
  obtain ⟨top, -, h⟩ := getExpect_bind_ok.mp h
  obtain ⟨⟨top₁, bottom₁⟩, s₁, hswap, h⟩ := Tx.bind_run_ok.mp h
  have hs₁ : counts s₁ = counts s := by
    refine Tx.Keeps.run (Tx.Keeps.ite ?_ (.pure _)) hswap
    apply Tx.Keeps.bind (.read _)
    exact fun _ => .pure _
  dsimp only at h
  rw [Tx.bind_run_of_ok CandidateMetadata.resetTopData_run, Tx.modify_bind_ok] at h
  obtain ⟨heq, hs'⟩ := Tx.pure_ok.mp h
  obtain ⟨rfl, -⟩ := Prod.mk.inj heq
  exact .after hs₁ (sameCount_refl m) (Recounted.reset hs')

theorem storeBottom_recounted {s₁ : State R} {m₁ : CandidateMetadata}
    (h : (do
      Tx.modify fun s => { s with bottomDelegations := s.bottomDelegations.insert c bottom }
      pure (m₁.resetBottomData R bottom) : Update R CandidateMetadata) s₁ = (.ok m', s'))
    (hbefore : Recounted c m m₁ s s₁) : Recounted c m m' s s' := by
  rw [Tx.modify_bind_ok] at h
  obtain ⟨rfl, hs'⟩ := Tx.pure_ok.mp h
  apply hbefore.before
  · rw [hs']
  · exact sameCount_reset _

theorem increaseBottomDelegation_recounted {bond more : ℕ}
    (h : m.increaseBottomDelegation c d bond more s = (.ok m', s')) :
    Recounted c m m' s s' := by
  obtain ⟨bottom, -, h⟩ := getOr_bind_ok.mp h
  dsimp only at h
  by_cases hmore : satAdd bond more > m.lowestTopDelegationAmount
  · rw [if_pos hmore] at h
    obtain ⟨⟨m₁, bottom₁⟩, s₁, hraise, h⟩ := Tx.bind_run_ok.mp h
    exact storeBottom_recounted h (raiseToTop_recounted hraise)
  · rw [if_neg hmore] at h
    obtain ⟨bottom₁, s₁, hraise, htail⟩ := Tx.bind_run_ok.mp h
    obtain ⟨-, hraise⟩ := ensure_bind_ok.mp hraise
    obtain ⟨-, rfl⟩ := Tx.pure_ok.mp hraise
    exact storeBottom_recounted htail (.quiet rfl (sameCount_refl m))

theorem increaseDelegation_recounted {bond more : ℕ}
    (h : m.increaseDelegation c d bond more s = (.ok m', s')) : Recounted c m m' s s' := by
  unfold CandidateMetadata.increaseDelegation at h
  split_ifs at h
  · exact increaseTopDelegation_recounted h
  · rcases increaseTopDelegation_clean.recover_ok h with h | h
    · exact increaseTopDelegation_recounted h
    · exact increaseBottomDelegation_recounted h
  · exact increaseBottomDelegation_recounted h

theorem lowerToBottom_ok {less : ℕ} {top' : Delegations R.Account}
    (h : m.lowerToBottom c d less top s = (.ok (m', top'), s')) :
    counts s' = counts s ∧ m'.SameCount m := by
  obtain ⟨a, -, h⟩ := getOr_bind_ok.mp h
  obtain ⟨bottom, -, h⟩ := getExpect_bind_ok.mp h
  obtain ⟨highest, -, h⟩ := Tx.read_bind_ok.mp h
  rw [Tx.modify_bind_ok] at h
  obtain ⟨heq, rfl⟩ := Tx.pure_ok.mp h
  obtain ⟨rfl, -⟩ := Prod.mk.inj heq
  exact ⟨rfl, sameCount_reset _⟩

theorem storeTop_recounted {s₁ : State R} {m₁ : CandidateMetadata}
    (h : (do
      let self ← m₁.resetTopData c top
      Tx.modify fun s => { s with topDelegations := s.topDelegations.insert c top }
      pure self : Update R CandidateMetadata) s₁ = (.ok m', s'))
    (hbefore : counts s₁ = counts s ∧ m₁.SameCount m) : Recounted c m m' s s' := by
  rw [Tx.bind_run_of_ok CandidateMetadata.resetTopData_run, Tx.modify_bind_ok] at h
  obtain ⟨rfl, hs'⟩ := Tx.pure_ok.mp h
  exact .after hbefore.1 hbefore.2 (Recounted.reset hs')

theorem decreaseTopDelegation_recounted {bond less : ℕ}
    (h : m.decreaseTopDelegation c d bond less s = (.ok m', s')) : Recounted c m m' s s' := by
  obtain ⟨top, -, h⟩ := getOr_bind_ok.mp h
  dsimp only at h
  split_ifs at h
  · obtain ⟨⟨m₁, top₁⟩, s₁, hlower, h⟩ := Tx.bind_run_ok.mp h
    exact storeTop_recounted h (lowerToBottom_ok hlower)
  · obtain ⟨top₁, s₁, hlower, htail⟩ := Tx.bind_run_ok.mp h
    obtain ⟨-, hlower⟩ := ensure_bind_ok.mp hlower
    obtain ⟨-, rfl⟩ := Tx.pure_ok.mp hlower
    exact storeTop_recounted htail ⟨rfl, sameCount_refl m⟩

theorem storeTop_noErr (m₁ : CandidateMetadata) (top : Delegations R.Account) :
    (do
      let self ← m₁.resetTopData c top
      Tx.modify fun s => { s with topDelegations := s.topDelegations.insert c top }
      pure self : Update R CandidateMetadata).NoErr := by
  apply Tx.NoErr.bind resetTopData_noErr
  exact fun _ => .bind (.modify _) fun _ => .pure _

theorem decreaseTopDelegation_clean {bond less : ℕ} :
    (m.decreaseTopDelegation c d bond less : Update R _).Clean := by
  unfold CandidateMetadata.decreaseTopDelegation
  apply Tx.Clean.read_bind
  intro top
  dsimp only
  apply Tx.Clean.ite
  · refine Tx.Clean.bind ?_ fun x => storeTop_noErr x.1 x.2
    unfold CandidateMetadata.lowerToBottom
    apply Tx.Clean.read_bind
    intro a
    apply Tx.NoErr.clean
    apply Tx.NoErr.bind (getExpect_noErr _ _)
    intro bottom
    apply Tx.NoErr.bind (head_noErr _)
    exact fun _ => .bind (.modify _) fun _ => .pure _
  · refine Tx.Clean.bind ?_ fun top₁ => storeTop_noErr m top₁
    unfold CandidateMetadata.lowerInTop
    apply Tx.Clean.read_bind
    exact fun _ => Tx.NoErr.clean (.pure _)

theorem decreaseBottomDelegation_recounted {less : ℕ}
    (h : m.decreaseBottomDelegation c d less s = (.ok m', s')) : Recounted c m m' s s' := by
  obtain ⟨bottom, -, h⟩ := getExpect_bind_ok.mp h
  obtain ⟨-, h⟩ := ensure_bind_ok.mp h
  rw [Tx.modify_bind_ok] at h
  obtain ⟨rfl, rfl⟩ := Tx.pure_ok.mp h
  exact .quiet rfl (sameCount_reset _)

theorem decreaseDelegation_recounted {bond less : ℕ}
    (h : m.decreaseDelegation c d bond less s = (.ok m', s')) : Recounted c m m' s s' := by
  unfold CandidateMetadata.decreaseDelegation at h
  split_ifs at h
  · exact decreaseTopDelegation_recounted h
  · rcases decreaseTopDelegation_clean.recover_ok h with h | h
    · exact decreaseTopDelegation_recounted h
    · exact decreaseBottomDelegation_recounted h
  · exact decreaseBottomDelegation_recounted h

end Operations

end Staking
end ZkNft
