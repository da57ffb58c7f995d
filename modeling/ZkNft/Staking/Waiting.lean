import ZkNft.Staking.Pool

/-! What waits for its round: exits, decreases of bonds, and requests of delegators. Apart from the
calls that schedule, nothing begins to wait. -/

namespace ZkNft
namespace Staking
open Keyed StorageMap

variable {R : Runtime}

/-- Something that can be executed from a certain round on. -/
inductive Unstaking (R : Runtime) where
  /-- The exit of a candidate. -/
  | leaveCandidates (candidate : R.Account) (when : ℕ)
  | candidateBondLess (candidate : R.Account) (request : CandidateBondLessRequest)
  | delegation (collator : R.Account) (request : ScheduledRequest R.Account)
  /-- The exit of some delegator with the deprecated status. -/
  | leaveDelegators (when : ℕ)

/-- The round from which on it can be executed. -/
def Unstaking.when : Unstaking R → ℕ
  | .leaveCandidates _ when => when
  | .candidateBondLess _ request => request.whenExecutable
  | .delegation _ request => request.whenExecutable
  | .leaveDelegators when => when

def State.Waiting (s : State R) : Unstaking R → Prop
  | .leaveCandidates c when => ∃ m, s.candidateInfo.get c = some m ∧ m.status = .leaving when
  | .candidateBondLess c request => ∃ m, s.candidateInfo.get c = some m ∧ m.request = some request
  | .delegation c request => request ∈ s.delegationScheduledRequests c
  | .leaveDelegators when => ∃ d D, s.delegatorState.get d = some D ∧ D.status = .leaving when

/-- Nothing waits but what `P` allows; with `P` the waiting of a state before, nothing has begun to
wait. -/
def Calm (P : Unstaking R → Prop) (s : State R) : Prop := ∀ p, s.Waiting p → P p

section Calm
variable {P : Unstaking R → Prop} {s s₁ s' : State R} {c d : R.Account}

theorem Calm.refl (s : State R) : Calm s.Waiting s := fun _ h => h

theorem Calm.trans (h : Calm P s₁) (h' : Calm s₁.Waiting s') : Calm P s' :=
  fun p hp => h p (h' p hp)

theorem Calm.mono {Q : Unstaking R → Prop} (h : Calm P s) (hall : ∀ p, P p → Q p) : Calm Q s :=
  fun p hp => hall p (h p hp)

/-- What waiting depends on. -/
abbrev queues (s : State R) : StorageMap R.Account CandidateMetadata ×
    StorageMap R.Account (Delegator R.Account) ×
    (R.Account → List (ScheduledRequest R.Account)) :=
  (s.candidateInfo, s.delegatorState, s.delegationScheduledRequests)

theorem queues_eq : queues s' = queues s ↔ s'.candidateInfo = s.candidateInfo ∧
    s'.delegatorState = s.delegatorState ∧
    s'.delegationScheduledRequests = s.delegationScheduledRequests := by
  rw [Prod.mk.injEq, Prod.mk.injEq]

theorem Calm.of_queues (h : queues s' = queues s) : Calm s.Waiting s' := by
  obtain ⟨hinfo, hdelegators, hrequests⟩ := queues_eq.mp h
  intro p hp
  unfold State.Waiting at hp ⊢
  rw [hinfo, hdelegators, hrequests] at hp
  exact hp

/-- The metadata of a candidate, with nothing new that waits. -/
structure CandidateMetadata.CalmFrom (m' m : CandidateMetadata) : Prop where
  status : ∀ when, m'.status = .leaving when → m.status = .leaving when
  request : ∀ r, m'.request = some r → m.request = some r

theorem setAllRequests_delegatorState
    (updated : List (R.Account × List (ScheduledRequest R.Account))) :
    s.delegatorState = (s.setAllRequests updated).delegatorState := by
  obtain ⟨requests, hset, -⟩ := setAllRequests_eq (s := s) updated
  rw [hset]

namespace Calm
variable (h : Calm P s₁)
include h

/-- What waiting does not depend on changes. -/
theorem behind (hs' : queues s' = queues s₁) : Calm P s' := h.trans (.of_queues hs')

theorem storeCandidate {m : CandidateMetadata}
    (hstatus : ∀ when, m.status = .leaving when → P (.leaveCandidates c when))
    (hrequest : ∀ r, m.request = some r → P (.candidateBondLess c r)) :
    Calm P { s₁ with candidateInfo := s₁.candidateInfo.insert c m } := by
  intro p hp
  cases p with
  | leaveCandidates b when =>
    obtain ⟨m₁, hm₁, hwhen⟩ := hp
    revert hwhen
    revert b m₁
    apply forall_insert
    · exact hstatus when
    · exact fun b m₁ _ hm₁ hwhen => h (.leaveCandidates b when) ⟨m₁, hm₁, hwhen⟩
  | candidateBondLess b request =>
    obtain ⟨m₁, hm₁, hr⟩ := hp
    revert hr
    revert b m₁
    apply forall_insert
    · exact hrequest request
    · exact fun b m₁ _ hm₁ hr => h (.candidateBondLess b request) ⟨m₁, hm₁, hr⟩
  | delegation b r => exact h (.delegation b r) hp
  | leaveDelegators when => exact h (.leaveDelegators when) hp

omit h in
theorem insertCandidate {m m' : CandidateMetadata} (h : Calm s.Waiting s₁)
    (hm : s.candidateInfo.get c = some m) (hfrom : m'.CalmFrom m) :
    Calm s.Waiting { s₁ with candidateInfo := s₁.candidateInfo.insert c m' } := by
  apply h.storeCandidate
  · exact fun when hwhen => ⟨m, hm, hfrom.status when hwhen⟩
  · exact fun r hr => ⟨m, hm, hfrom.request r hr⟩

theorem removeCandidate : Calm P { s₁ with candidateInfo := s₁.candidateInfo.remove c } := by
  have hback : ∀ b m, (s₁.candidateInfo.remove c).get b = some m →
      s₁.candidateInfo.get b = some m := forall_remove fun _ _ _ hm => hm
  intro p hp
  cases p with
  | leaveCandidates b when =>
    obtain ⟨m, hm, hwhen⟩ := hp
    exact h (.leaveCandidates b when) ⟨m, hback b m hm, hwhen⟩
  | candidateBondLess b request =>
    obtain ⟨m, hm, hr⟩ := hp
    exact h (.candidateBondLess b request) ⟨m, hback b m hm, hr⟩
  | delegation b r => exact h (.delegation b r) hp
  | leaveDelegators when => exact h (.leaveDelegators when) hp

theorem insertDelegator {D : Delegator R.Account}
    (hD : ∀ when, D.status = .leaving when → P (.leaveDelegators when)) :
    Calm P { s₁ with delegatorState := s₁.delegatorState.insert d D } := by
  intro p hp
  cases p with
  | leaveCandidates b when => exact h (.leaveCandidates b when) hp
  | candidateBondLess b request => exact h (.candidateBondLess b request) hp
  | delegation b r => exact h (.delegation b r) hp
  | leaveDelegators when =>
    obtain ⟨e, E, hE, hstatus⟩ := hp
    revert hstatus
    revert e E
    apply forall_insert
    · exact hD when
    · exact fun e E _ hE hstatus => h (.leaveDelegators when) ⟨e, E, hE, hstatus⟩

theorem removeDelegator : Calm P { s₁ with delegatorState := s₁.delegatorState.remove d } := by
  have hback : ∀ e E, (s₁.delegatorState.remove d).get e = some E →
      s₁.delegatorState.get e = some E := forall_remove fun _ _ _ hE => hE
  intro p hp
  cases p with
  | leaveCandidates b when => exact h (.leaveCandidates b when) hp
  | candidateBondLess b request => exact h (.candidateBondLess b request) hp
  | delegation b r => exact h (.delegation b r) hp
  | leaveDelegators when =>
    obtain ⟨e, E, hE, hstatus⟩ := hp
    exact h (.leaveDelegators when) ⟨e, E, hback e E hE, hstatus⟩

theorem setRequests {requests : List (ScheduledRequest R.Account)}
    (hall : ∀ r ∈ requests, P (.delegation c r)) : Calm P (s₁.setRequests c requests) := by
  intro p hp
  cases p with
  | leaveCandidates b when => exact h (.leaveCandidates b when) hp
  | candidateBondLess b request => exact h (.candidateBondLess b request) hp
  | delegation b r =>
    have hr : r ∈ if b = c then requests else s₁.delegationScheduledRequests b := hp
    split_ifs at hr with hb
    · rw [hb]
      exact hall r hr
    · exact h (.delegation b r) hr
  | leaveDelegators when => exact h (.leaveDelegators when) hp

theorem setAllRequests {updated : List (R.Account × List (ScheduledRequest R.Account))}
    (hall : ∀ x ∈ updated, ∀ r ∈ x.2, P (.delegation x.1 r)) :
    Calm P (s₁.setAllRequests updated) := by
  induction updated generalizing s₁ with
  | nil => exact h
  | cons x updated ih =>
    have ⟨hx, hrest⟩ := List.forall_mem_cons.mp hall
    exact ih (h.setRequests hx) hrest

end Calm

end Calm

/-- `f` does not depend on the lists of the candidates and the pool. -/
def OffLists {τ : Type} (f : State R → τ) : Prop :=
  ∀ s topDelegations bottomDelegations candidatePool,
    f { s with topDelegations, bottomDelegations, candidatePool } = f s

theorem offLists_queues : OffLists (queues (R := R)) := fun _ _ _ _ => rfl

section Lists
variable {τ : Type} {f : State R → τ} {c d : R.Account} {m : CandidateMetadata}

theorem OffLists.top (hf : OffLists f) (s : State R)
    (topDelegations : StorageMap R.Account (Delegations R.Account)) :
    f { s with topDelegations } = f s := hf s topDelegations s.bottomDelegations s.candidatePool

theorem OffLists.bottom (hf : OffLists f) (s : State R)
    (bottomDelegations : StorageMap R.Account (Delegations R.Account)) :
    f { s with bottomDelegations } = f s := hf s s.topDelegations bottomDelegations s.candidatePool

section
variable (hf : OffLists f)
include hf

theorem resetTopData_keeps (c : R.Account) (top : Delegations R.Account) :
    (m.resetTopData c top : Update R _).Keeps f := by
  intro s
  rw [CandidateMetadata.resetTopData_run]
  exact hf s s.topDelegations s.bottomDelegations _

theorem rmTopDelegation_keeps : (m.rmTopDelegation c d : Update R _).Keeps f := by
  unfold CandidateMetadata.rmTopDelegation CandidateMetadata.bumpHighestBottom
  apply Tx.Keeps.bind (.read _)
  intro top
  apply Tx.Keeps.bind (.read _)
  intro a
  apply Tx.Keeps.bind
  · apply Tx.Keeps.ite
    · apply Tx.Keeps.bind (.read _)
      intro bottom
      apply Tx.Keeps.bind (.read _)
      exact fun _ => .bind (.modify fun s => hf.bottom s _) fun _ => .pure _
    · exact .pure _
  · intro _
    apply Tx.Keeps.bind (resetTopData_keeps hf _ _)
    exact fun _ => .bind (.modify fun s => hf.top s _) fun _ => .pure _

theorem rmBottomDelegation_keeps : (m.rmBottomDelegation c d : Update R _).Keeps f := by
  unfold CandidateMetadata.rmBottomDelegation
  apply Tx.Keeps.bind (.read _)
  intro bottom
  apply Tx.Keeps.bind (.read _)
  exact fun _ => .bind (.modify fun s => hf.bottom s _) fun _ => .pure _

theorem rmDelegationIfExists_keeps (a : ℕ) :
    (m.rmDelegationIfExists c d a : Update R _).Keeps f := by
  unfold CandidateMetadata.rmDelegationIfExists
  apply Tx.Keeps.ite (rmTopDelegation_keeps hf)
  apply Tx.Keeps.ite
  · exact .recover _ (rmTopDelegation_keeps hf) (rmBottomDelegation_keeps hf)
  · exact rmBottomDelegation_keeps hf

theorem increaseTopDelegation_keeps (more : ℕ) :
    (m.increaseTopDelegation c d more : Update R _).Keeps f := by
  unfold CandidateMetadata.increaseTopDelegation
  apply Tx.Keeps.bind (.read _)
  intro top
  apply Tx.Keeps.bind (.read _)
  intro _
  apply Tx.Keeps.bind (resetTopData_keeps hf _ _)
  exact fun _ => .bind (.modify fun s => hf.top s _) fun _ => .pure _

theorem raiseToTop_keeps (bond more : ℕ) (bottom : Delegations R.Account) :
    (m.raiseToTop c d bond more bottom).Keeps f := by
  unfold CandidateMetadata.raiseToTop CandidateMetadata.swapLowestTop
  apply Tx.Keeps.bind (.read _)
  intro a
  apply Tx.Keeps.bind (.read _)
  intro top
  apply Tx.Keeps.bind
  · apply Tx.Keeps.ite
    · exact .bind (.read _) fun _ => .pure _
    · exact .pure _
  · intro _
    apply Tx.Keeps.bind (resetTopData_keeps hf _ _)
    exact fun _ => .bind (.modify fun s => hf.top s _) fun _ => .pure _

theorem increaseBottomDelegation_keeps (bond more : ℕ) :
    (m.increaseBottomDelegation c d bond more : Update R _).Keeps f := by
  unfold CandidateMetadata.increaseBottomDelegation CandidateMetadata.raiseInBottom
  apply Tx.Keeps.bind (.read _)
  intro bottom
  dsimp only
  apply Tx.Keeps.ite
  · apply Tx.Keeps.bind (raiseToTop_keeps hf _ _ _)
    exact fun _ => .bind (.modify fun s => hf.bottom s _) fun _ => .pure _
  · apply Tx.Keeps.bind
    · exact .bind (.read _) fun _ => .pure _
    · intro _
      apply Tx.Keeps.bind (.pure _)
      exact fun _ => .bind (.modify fun s => hf.bottom s _) fun _ => .pure _

theorem increaseDelegation_keeps (bond more : ℕ) :
    (m.increaseDelegation c d bond more : Update R _).Keeps f := by
  unfold CandidateMetadata.increaseDelegation
  apply Tx.Keeps.ite (increaseTopDelegation_keeps hf _)
  apply Tx.Keeps.ite
  · exact .recover _ (increaseTopDelegation_keeps hf _) (increaseBottomDelegation_keeps hf _ _)
  · exact increaseBottomDelegation_keeps hf _ _

theorem lowerToBottom_keeps (less : ℕ) (top : Delegations R.Account) :
    (m.lowerToBottom c d less top).Keeps f := by
  unfold CandidateMetadata.lowerToBottom
  apply Tx.Keeps.bind (.read _)
  intro a
  apply Tx.Keeps.bind (.read _)
  intro bottom
  apply Tx.Keeps.bind (.read _)
  exact fun _ => .bind (.modify fun s => hf.bottom s _) fun _ => .pure _

theorem storeTop_keeps (top : Delegations R.Account) :
    (do
      let self ← m.resetTopData c top
      Tx.modify fun s => { s with topDelegations := s.topDelegations.insert c top }
      pure self : Update R CandidateMetadata).Keeps f := by
  apply Tx.Keeps.bind (resetTopData_keeps hf _ _)
  exact fun _ => .bind (.modify fun s => hf.top s _) fun _ => .pure _

theorem decreaseTopDelegation_keeps (bond less : ℕ) :
    (m.decreaseTopDelegation c d bond less : Update R _).Keeps f := by
  unfold CandidateMetadata.decreaseTopDelegation CandidateMetadata.lowerInTop
  apply Tx.Keeps.bind (.read _)
  intro top
  dsimp only
  apply Tx.Keeps.ite
  · exact .bind (lowerToBottom_keeps hf _ _) fun x => storeTop_keeps hf x.2
  · apply Tx.Keeps.bind
    · exact .bind (.read _) fun _ => .pure _
    · exact fun top => .bind (.pure _) fun x => storeTop_keeps hf x.2

theorem decreaseBottomDelegation_keeps (less : ℕ) :
    (m.decreaseBottomDelegation c d less : Update R _).Keeps f := by
  unfold CandidateMetadata.decreaseBottomDelegation
  apply Tx.Keeps.bind (.read _)
  intro bottom
  apply Tx.Keeps.bind (.read _)
  exact fun _ => .bind (.modify fun s => hf.bottom s _) fun _ => .pure _

theorem decreaseDelegation_keeps (bond less : ℕ) :
    (m.decreaseDelegation c d bond less : Update R _).Keeps f := by
  unfold CandidateMetadata.decreaseDelegation
  apply Tx.Keeps.ite (decreaseTopDelegation_keeps hf _ _)
  apply Tx.Keeps.ite
  · exact .recover _ (decreaseTopDelegation_keeps hf _ _) (decreaseBottomDelegation_keeps hf _)
  · exact decreaseBottomDelegation_keeps hf _

end

end Lists

section Delegators
variable {s s' : State R} {c d : R.Account} {m m' : CandidateMetadata} {b : Bool}
  {x : Bond R.Account} {u : PUnit} {D D' : Delegator R.Account}

theorem adjustBondLock_queues (D : Delegator R.Account) (adjust : BondAdjust) :
    (D.adjustBondLock adjust).Keeps queues :=
  adjustBondLock_keeps_of_world (fun _ _ => rfl) D adjust

theorem rmDelegation_ok {n : Option ℕ} (h : D.rmDelegation c s = (.ok (n, D'), s')) :
    queues s' = queues s ∧ D'.status = D.status := by
  unfold Delegator.rmDelegation at h
  generalize ((D.delegations.filter fun x => x.owner = c).getLast?).map Bond.amount = a at h
  cases a with
  | some a =>
    obtain ⟨D₁, s₁, hsub, h⟩ := Tx.bind_run_ok.mp h
    obtain ⟨_, s₂, hlock, hsub⟩ := Tx.bind_run_ok.mp (Tx.expectOk_ok hsub)
    obtain ⟨rfl, rfl⟩ := Tx.pure_ok.mp hsub
    obtain ⟨heq, rfl⟩ := Tx.pure_ok.mp h
    obtain ⟨-, rfl⟩ := Prod.mk.inj heq
    exact ⟨(adjustBondLock_queues _ _).run hlock, rfl⟩
  | none =>
    obtain ⟨heq, rfl⟩ := Tx.pure_ok.mp h
    obtain ⟨-, rfl⟩ := Prod.mk.inj heq
    exact ⟨rfl, rfl⟩

theorem delegationRemoveRequestWithState_calm
    (h : delegationRemoveRequestWithState c d D s = (.ok D', s')) :
    Calm s.Waiting s' ∧ D'.status = D.status := by
  rw [delegationRemoveRequestWithState_run] at h
  obtain ⟨hD', rfl⟩ := Prod.mk.inj h
  obtain rfl := Exec.ok.inj hD'
  exact ⟨(Calm.refl s).setRequests fun r hr => dropRequest_sublist.subset hr, rfl⟩

/-- The status of a delegator that is there. -/
theorem waiting_of_status (hD : s.delegatorState.get d = some D) (hstatus : D'.status = D.status) :
    ∀ when, D'.status = .leaving when → s.Waiting (.leaveDelegators when) := by
  intro when hwhen
  exact ⟨d, D, hD, hstatus ▸ hwhen⟩

theorem kick_calm (h : CandidateMetadata.kick c x s = (.ok u, s')) : Calm s.Waiting s' := by
  obtain ⟨D, hD, h⟩ := getExpect_bind_ok.mp h
  obtain ⟨⟨n, D₁⟩, s₁, hrm, h⟩ := Tx.bind_run_ok.mp h
  obtain ⟨D₂, s₂, hremove, h⟩ := Tx.bind_run_ok.mp h
  obtain rfl := Tx.modify_ok.mp h
  have ⟨hqueues, hstatus⟩ := rmDelegation_ok hrm
  have ⟨hcalm, hstatus'⟩ := delegationRemoveRequestWithState_calm hremove
  have hcalm' := (Calm.of_queues hqueues).trans hcalm
  split_ifs
  · exact hcalm'.removeDelegator
  · exact hcalm'.insertDelegator (waiting_of_status hD (hstatus'.trans hstatus))

theorem makeRoom_calm {bottom bottom' : Delegations R.Account} {increase : Bool}
    (h : CandidateMetadata.makeRoom b c bottom s = (.ok (bottom', increase), s')) :
    Calm s.Waiting s' := by
  unfold CandidateMetadata.makeRoom at h
  split_ifs at h
  · obtain ⟨kicked, -, h⟩ := getExpect_bind_ok.mp h
    obtain ⟨_, s₁, hkick, h⟩ := Tx.bind_run_ok.mp h
    obtain ⟨-, rfl⟩ := Tx.pure_ok.mp h
    exact kick_calm hkick
  · obtain ⟨-, rfl⟩ := Tx.pure_ok.mp h
    exact .refl _

theorem addBottomDelegation_calm (h : m.addBottomDelegation b c x s = (.ok m', s')) :
    Calm s.Waiting s' := by
  obtain ⟨bottom, -, h⟩ := getExpect_bind_ok.mp h
  obtain ⟨⟨bottom', increase⟩, s₁, hroom, h⟩ := Tx.bind_run_ok.mp h
  dsimp only at h
  rw [Tx.modify_bind_ok] at h
  obtain ⟨-, rfl⟩ := Tx.pure_ok.mp h
  exact (makeRoom_calm hroom).behind rfl

theorem addTopDelegation_calm {less : Option ℕ}
    (h : m.addTopDelegation c x s = (.ok (m', less), s')) : Calm s.Waiting s' := by
  obtain ⟨top, -, h⟩ := getExpect_bind_ok.mp h
  obtain ⟨⟨m₁, top₁, less₁⟩, s₁, hbump, h⟩ := Tx.bind_run_ok.mp h
  dsimp only at h
  rw [Tx.bind_run_of_ok CandidateMetadata.resetTopData_run, Tx.modify_bind_ok] at h
  obtain ⟨-, rfl⟩ := Tx.pure_ok.mp h
  have hcalm : Calm s.Waiting s₁ := by
    unfold CandidateMetadata.bumpLowestTop at hbump
    by_cases hfull : top.delegations.length = R.maxTopDelegationsPerCandidate
    · rw [if_pos hfull] at hbump
      obtain ⟨bumped, -, hbump⟩ := getExpect_bind_ok.mp hbump
      obtain ⟨m₂, s₂, hadd, hbump⟩ := Tx.bind_run_ok.mp hbump
      obtain ⟨-, rfl⟩ := Tx.pure_ok.mp hbump
      exact addBottomDelegation_calm hadd
    · rw [if_neg hfull] at hbump
      obtain ⟨-, rfl⟩ := Tx.pure_ok.mp hbump
      exact .refl _
  exact hcalm.behind rfl

theorem addDelegation_calm {less : Option ℕ}
    (h : m.addDelegation c x s = (.ok (m', less), s')) : Calm s.Waiting s' := by
  unfold CandidateMetadata.addDelegation at h
  split_ifs at h
  · exact addTopDelegation_calm h
  · obtain ⟨-, h⟩ := ensure_bind_ok.mp h
    obtain ⟨m₁, s₁, hadd, h⟩ := Tx.bind_run_ok.mp h
    obtain ⟨-, rfl⟩ := Tx.pure_ok.mp h
    exact addBottomDelegation_calm hadd
  · obtain ⟨m₁, s₁, hadd, h⟩ := Tx.bind_run_ok.mp h
    obtain ⟨-, rfl⟩ := Tx.pure_ok.mp h
    exact addBottomDelegation_calm hadd
  · obtain ⟨⟨m₁, less₁⟩, s₁, hadd, h⟩ := Tx.bind_run_ok.mp h
    obtain ⟨-, rfl⟩ := Tx.pure_ok.mp h
    exact addTopDelegation_calm hadd

theorem returnStake_calm (h : returnStake c x s = (.ok u, s')) : Calm s.Waiting s' := by
  obtain ⟨D, hD, h⟩ := getOr_bind_ok.mp h
  obtain ⟨⟨n, D₁⟩, s₁, hrm, h⟩ := Tx.bind_run_ok.mp h
  have ⟨hqueues, hstatus⟩ := rmDelegation_ok hrm
  have hcalm := Calm.of_queues hqueues
  cases n with
  | none =>
    obtain rfl := Tx.modify_ok.mp h
    exact hcalm.behind rfl
  | some n =>
    obtain ⟨D₂, s₂, hremove, h⟩ := Tx.bind_run_ok.mp h
    have ⟨hcalm', hstatus'⟩ := delegationRemoveRequestWithState_calm hremove
    obtain rfl := Tx.modify_ok.mp h
    split_ifs
    · exact (hcalm.trans hcalm').removeDelegator.behind rfl
    · exact (hcalm.trans hcalm').insertDelegator
        (waiting_of_status hD (hstatus'.trans hstatus))

theorem returnStakes_calm {bonds : List (Bond R.Account)}
    (h : returnStakes c bonds s = (.ok u, s')) : Calm s.Waiting s' := by
  induction bonds generalizing s with
  | nil =>
    obtain ⟨-, rfl⟩ := Tx.pure_ok.mp h
    exact .refl _
  | cons x bonds ih =>
    obtain ⟨_, s₁, hreturn, h⟩ := Tx.bind_run_ok.mp h
    exact (returnStake_calm hreturn).trans (ih h)

theorem Recounted.calmFrom (h : Recounted c m m' s s') : m'.CalmFrom m := by
  constructor
  · intro when hwhen
    exact h.status ▸ hwhen
  · intro r hr
    exact h.request ▸ hr

theorem delegatorLeavesCandidate_calm {a : ℕ}
    (h : delegatorLeavesCandidate c d a s = (.ok u, s')) : Calm s.Waiting s' := by
  obtain ⟨m, hm, h⟩ := getOr_bind_ok.mp h
  obtain ⟨m', s₁, hrm, h⟩ := Tx.bind_run_ok.mp h
  obtain rfl := Tx.modify_ok.mp h
  have hcalm := Calm.of_queues ((rmDelegationIfExists_keeps offLists_queues a).run hrm)
  exact (hcalm.insertCandidate hm (rmDelegationIfExists_recounted hrm).calmFrom).behind rfl

theorem leaveOrLog_calm {a : ℕ} (h : leaveOrLog c d a s = (.ok u, s')) : Calm s.Waiting s' := by
  rcases (delegatorLeavesCandidate_clean c d a).recover_ok h with h | h
  · exact delegatorLeavesCandidate_calm h
  · obtain ⟨-, rfl⟩ := Tx.pure_ok.mp h
    exact .refl _

theorem leaveAll_calm {bonds : List (Bond R.Account)}
    (h : leaveAll d bonds s = (.ok u, s')) : Calm s.Waiting s' := by
  induction bonds generalizing s with
  | nil =>
    obtain ⟨-, rfl⟩ := Tx.pure_ok.mp h
    exact .refl _
  | cons bond bonds ih =>
    obtain ⟨_, s₁, hleave, h⟩ := Tx.bind_run_ok.mp h
    exact (leaveOrLog_calm hleave).trans (ih h)

theorem leaveAllDeprecated_calm {bonds : List (Bond R.Account)}
    (h : leaveAllDeprecated d D bonds s = (.ok u, s')) : Calm s.Waiting s' := by
  induction bonds generalizing s D with
  | nil =>
    obtain ⟨-, rfl⟩ := Tx.pure_ok.mp h
    exact .refl _
  | cons bond bonds ih =>
    obtain ⟨_, s₁, hleave, h⟩ := Tx.bind_run_ok.mp h
    obtain ⟨D', s₂, hremove, h⟩ := Tx.bind_run_ok.mp h
    obtain ⟨hcalm, -⟩ := delegationRemoveRequestWithState_calm hremove
    exact ((leaveOrLog_calm hleave).trans hcalm).trans (ih h)

end Delegators

section Calls
variable {s s' : State R} {c d : R.Account} {u : PUnit} {origin : Origin R}

theorem joinDelegation_status {a n : ℕ} {D : Delegator R.Account}
    (h : joinDelegation s d c a n = .ok D) :
    ∀ when, D.status = .leaving when → s.Waiting (.leaveDelegators when) := by
  unfold joinDelegation at h
  cases hD : s.delegatorState.get d with
  | some D₀ =>
    rw [hD] at h
    dsimp only at h
    split_ifs at h
    cases hadd : D₀.addDelegation ⟨c, a⟩ with
    | none =>
      rw [hadd] at h
      cases h
    | some D₁ =>
      rw [hadd] at h
      obtain rfl := Except.ok.inj h
      obtain ⟨l, -, rfl⟩ := Option.map_eq_some_iff.mp hadd
      exact waiting_of_status hD rfl
  | none =>
    rw [hD] at h
    dsimp only at h
    split_ifs at h
    obtain rfl := Except.ok.inj h
    intro when hwhen
    cases hwhen

theorem delegate_calm {a n k : ℕ} (h : delegate origin c a n k s = (.ok u, s')) :
    Calm s.Waiting s' := by
  obtain ⟨_, _, m, _, _, s₁, s₂, -, -, hjoin, hm, hadd, hlock, rfl⟩ := delegate_ok h
  have hcalm : Calm s.Waiting s₂ :=
    (addDelegation_calm hadd).behind ((adjustBondLock_queues _ _).run hlock)
  have hstored := hcalm.insertCandidate hm (addDelegation_recounted hadd).calmFrom
  exact (hstored.insertDelegator (joinDelegation_status hjoin)).behind rfl

theorem storeIncrease_calm {D : Delegator R.Account} {before more : ℕ}
    (hD : ∀ when, D.status = .leaving when → s.Waiting (.leaveDelegators when))
    (h : D.storeIncrease c before more s = (.ok u, s')) : Calm s.Waiting s' := by
  unfold Delegator.storeIncrease at h
  obtain ⟨_, s₁, hlock, h⟩ := Tx.bind_run_ok.mp h
  have hqueues := (adjustBondLock_queues _ _).run hlock
  obtain ⟨m, hm, h⟩ := getOr_bind_ok.mp h
  obtain ⟨m', s₂, hincrease, h⟩ := Tx.bind_run_ok.mp h
  rw [(queues_eq.mp hqueues).1] at hm
  have hcalm : Calm s.Waiting s₂ :=
    (Calm.of_queues hqueues).behind ((increaseDelegation_keeps offLists_queues _ _).run hincrease)
  have hfrom := (increaseDelegation_recounted hincrease).calmFrom
  have hstored := hcalm.insertCandidate hm hfrom
  dsimp only at h
  split_ifs at h
  · obtain ⟨_, s₃, hupdate, h⟩ := Tx.bind_run_ok.mp h
    obtain rfl := Tx.modify_ok.mp h
    obtain ⟨-, rfl⟩ := Prod.mk.inj hupdate
    exact (hstored.insertDelegator hD).behind rfl
  · obtain rfl := Tx.modify_ok.mp h
    exact (hstored.insertDelegator hD).behind rfl

theorem executeRevoke_calm {D : Delegator R.Account} {a : ℕ}
    {rest : List (ScheduledRequest R.Account)} (hD : s.delegatorState.get d = some D)
    (hrest : ∀ r ∈ rest, r ∈ s.delegationScheduledRequests c)
    (h : executeRevoke c d D a rest s = (.ok u, s')) : Calm s.Waiting s' := by
  unfold executeRevoke at h
  have h := ite_ensure_ok h
  obtain ⟨⟨n, D'⟩, s₁, hrm, h⟩ := Tx.bind_run_ok.mp h
  obtain ⟨_, s₂, hleave, h⟩ := Tx.bind_run_ok.mp h
  obtain rfl := Tx.modify_ok.mp h
  have ⟨hqueues, hstatus⟩ := rmDelegation_ok hrm
  have hcalm := (Calm.of_queues hqueues).trans (delegatorLeavesCandidate_calm hleave)
  dsimp only
  split_ifs
  · exact hcalm.removeDelegator.setRequests hrest
  · exact (hcalm.insertDelegator (waiting_of_status hD hstatus)).setRequests hrest

theorem executeDecrease_calm {D : Delegator R.Account} {a : ℕ}
    {rest : List (ScheduledRequest R.Account)} (hD : s.delegatorState.get d = some D)
    (hrest : ∀ r ∈ rest, r ∈ s.delegationScheduledRequests c)
    (h : executeDecrease c d D a rest s = (.ok u, s')) : Calm s.Waiting s' := by
  obtain ⟨_, m, m', D', s₁, s₂, -, -, -, -, hm, hD', hlock, hdecrease, rfl⟩ := executeDecrease_ok h
  have hstatus : D'.status = D.status := by rw [hD']
  have hcalm : Calm s.Waiting s₂ := (Calm.of_queues ((adjustBondLock_queues _ _).run hlock)).behind
    ((decreaseDelegation_keeps offLists_queues _ _).run hdecrease)
  have hstored := hcalm.insertCandidate hm (decreaseDelegation_recounted hdecrease).calmFrom
  exact ((hstored.insertDelegator (waiting_of_status hD hstatus)).setRequests hrest).behind
    rfl

theorem mem_of_takeRequest {requests rest : List (ScheduledRequest R.Account)}
    {request : ScheduledRequest R.Account} (h : takeRequest d requests = some (request, rest)) :
    ∀ r ∈ rest, r ∈ requests := by
  obtain ⟨-, -, rfl⟩ := takeRequest_eq_some h
  exact fun _ hr => dropRequest_sublist.subset hr

theorem executeDelegationRequest_calm
    (h : executeDelegationRequest origin d c s = (.ok u, s')) : Calm s.Waiting s' := by
  obtain ⟨_, _, _, _, -, hD, htake, -, hdone⟩ := executeDelegationRequest_ok h
  have hrest := mem_of_takeRequest htake
  obtain ⟨a, -, h⟩ | ⟨less, -, h⟩ := hdone
  · exact executeRevoke_calm hD hrest h
  · exact executeDecrease_calm hD hrest h

/-- What is left of a list of requests without one of a delegator. -/
theorem mem_of_cancelRequest {state state' : Delegator R.Account}
    {requests rest : List (ScheduledRequest R.Account)} {request : ScheduledRequest R.Account}
    (h : cancelRequestWithState d state requests = some (request, state', rest)) :
    request ∈ requests ∧ (∀ r ∈ rest, r ∈ requests) ∧ state'.status = state.status := by
  obtain ⟨hmem, -, rfl, rfl⟩ := cancelRequestWithState_eq_some h
  exact ⟨hmem, fun _ hr => dropRequest_sublist.subset hr, rfl⟩

theorem cancelDelegationRequest_calm
    (h : cancelDelegationRequest origin c s = (.ok u, s')) : Calm s.Waiting s' := by
  simp only [cancelDelegationRequest, delegationCancelRequest, Tx.transactional_run_ok,
    Tx.read_bind_ok, getOr_bind_ok, readRequests, Exec.ok.injEq, exists_eq_left',
    Tx.modify_ok] at h
  obtain ⟨d, -, D, hD, ⟨request, D', rest⟩, hcancel, rfl⟩ := h
  obtain ⟨-, hrest, hstatus⟩ := mem_of_cancelRequest hcancel
  exact ((Calm.refl s).insertDelegator (waiting_of_status hD hstatus)).setRequests hrest

theorem cancelAll_calm {D D' : Delegator R.Account} {bonds : List (Bond R.Account)}
    {updated : List (R.Account × List (ScheduledRequest R.Account))}
    (h : cancelAll s d D bonds = (D', updated)) : D'.status = D.status ∧
      ∀ x ∈ updated, ∀ r ∈ x.2, r ∈ s.delegationScheduledRequests x.1 := by
  induction bonds generalizing D D' updated with
  | nil =>
    simp only [cancelAll, Prod.mk.injEq] at h
    obtain ⟨rfl, rfl⟩ := h
    exact ⟨rfl, by simp⟩
  | cons bond bonds ih =>
    rw [cancelAll] at h
    cases hcancel : cancelRequestWithState d D (s.delegationScheduledRequests bond.owner) with
    | none =>
      generalize hall : cancelAll s d D bonds = all at h
      obtain ⟨D₂, updated₂⟩ := all
      simp only [hcancel, Option.elim_none, hall, Prod.mk.injEq] at h
      obtain ⟨rfl, rfl⟩ := h
      obtain ⟨hstatus, hrest⟩ := ih hall
      exact ⟨hstatus, List.forall_mem_cons.mpr ⟨fun _ hr => hr, hrest⟩⟩
    | some cancelled =>
      obtain ⟨request, D₁, rest⟩ := cancelled
      obtain ⟨-, hmem, hstatus₁⟩ := mem_of_cancelRequest hcancel
      generalize hall : cancelAll s d D₁ bonds = all at h
      obtain ⟨D₂, updated₂⟩ := all
      simp only [hcancel, Option.elim_some, hall, Prod.mk.injEq] at h
      obtain ⟨rfl, rfl⟩ := h
      obtain ⟨hstatus, hrest⟩ := ih hall
      exact ⟨hstatus.trans hstatus₁, List.forall_mem_cons.mpr ⟨hmem, hrest⟩⟩

theorem cancelLeaveDelegators_calm (h : cancelLeaveDelegators origin s = (.ok u, s')) :
    Calm s.Waiting s' := by
  simp only [cancelLeaveDelegators, delegatorCancelScheduledRevokeAll, Tx.transactional_run_ok,
    Tx.read_bind_ok, getOr_bind_ok] at h
  obtain ⟨d, -, D, hD, h⟩ := h
  cases hstatus : D.status with
  | leaving when =>
    rw [hstatus] at h
    obtain rfl := Tx.modify_ok.mp h
    apply (Calm.refl s).insertDelegator
    intro _ hactive
    cases hactive
  | active =>
    rw [hstatus] at h
    simp only [ensure_bind_ok, Tx.read_bind_ok, Exec.ok.injEq, exists_eq_left', Tx.modify_ok] at h
    obtain ⟨-, rfl⟩ := h
    generalize hall : cancelAll s d D D.delegations = all
    obtain ⟨D', updated⟩ := all
    obtain ⟨hsame, hrest⟩ := cancelAll_calm hall
    have hcalm := (Calm.refl s).setAllRequests hrest
    rw [setAllRequests_delegatorState updated]
    exact hcalm.insertDelegator (waiting_of_status hD hsame)

/-- Every delegation has a due revoke. -/
theorem validateRevokes_due {bonds : List (Bond R.Account)}
    {validated : List (Bond R.Account × List (ScheduledRequest R.Account))}
    (h : validateRevokes d bonds s = (.ok validated, s')) : s' = s ∧
      (∀ bond ∈ bonds, ∃ r rest,
        takeRevoke d (s.delegationScheduledRequests bond.owner) = some (r, rest) ∧
          r.whenExecutable ≤ s.round.current) ∧
      ∀ x ∈ validated, ∀ r ∈ x.2, r ∈ s.delegationScheduledRequests x.1.owner := by
  induction bonds generalizing validated with
  | nil =>
    obtain ⟨rfl, rfl⟩ := Tx.pure_ok.mp h
    exact ⟨rfl, by simp, by simp⟩
  | cons bond bonds ih =>
    simp only [validateRevokes, readRequests, Tx.read_bind_ok, getOr_bind_ok, ensure_bind_ok,
      Exec.ok.injEq, exists_eq_left'] at h
    obtain ⟨⟨request, rest⟩, htake, hdue, h⟩ := h
    obtain ⟨validated', s₁, hrec, hpure⟩ := Tx.bind_run_ok.mp h
    obtain ⟨rfl, rfl⟩ := Tx.pure_ok.mp hpure
    obtain ⟨hsame, hdues, hrests⟩ := ih hrec
    have hrest : ∀ r ∈ rest, r ∈ s.delegationScheduledRequests bond.owner := by
      obtain ⟨_, -, heq⟩ := Option.map_eq_some_iff.mp htake
      obtain ⟨-, rfl⟩ := Prod.mk.inj heq
      exact fun _ hr => List.eraseP_sublist.subset hr
    exact ⟨hsame, List.forall_mem_cons.mpr ⟨⟨request, rest, htake, of_decide_eq_true hdue⟩, hdues⟩,
      List.forall_mem_cons.mpr ⟨hrest, hrests⟩⟩

theorem executeLeaveDelegators_calm {n : ℕ}
    (h : executeLeaveDelegators origin d n s = (.ok u, s')) : Calm s.Waiting s' := by
  obtain ⟨D, -, ⟨_, s₁, -, -, hleave, rfl⟩ |
    ⟨validated, s₁, s₂, s₃, -, hvalidate, hleave, hlock, rfl⟩⟩ := executeLeaveDelegators_cases h
  · exact (leaveAllDeprecated_calm hleave).removeDelegator
  · obtain ⟨rfl, -, hrest⟩ := validateRevokes_due hvalidate
    have hcalm : Calm s₁.Waiting s₃ :=
      (leaveAll_calm hleave).behind ((adjustBondLock_queues _ _).run hlock)
    have hrest' : ∀ y ∈ validated.map fun x => (x.1.owner, x.2), ∀ r ∈ y.2,
        r ∈ s₁.delegationScheduledRequests y.1 := by
      intro y hy
      obtain ⟨x, hx, rfl⟩ := List.mem_map.mp hy
      exact hrest x hx
    rw [setAllRequests_delegatorState (validated.map fun x => (x.1.owner, x.2))]
    exact (hcalm.setAllRequests hrest').removeDelegator

theorem delegatorBondMore_calm {more : ℕ}
    (h : delegatorBondMore origin c more s = (.ok u, s')) : Calm s.Waiting s' := by
  obtain ⟨_, _, _, -, hD, -, hstore⟩ := delegatorBondMore_ok h
  refine storeIncrease_calm ?_ hstore
  exact waiting_of_status hD rfl

theorem storeRemoved_calm {m m' : CandidateMetadata} (hm : s.candidateInfo.get c = some m)
    (hfrom : m'.CalmFrom m) (h : storeRemoved c m' s = (.ok u, s')) : Calm s.Waiting s' := by
  obtain rfl := Tx.modify_ok.mp h
  exact ((Calm.refl s).insertCandidate hm hfrom).behind rfl

theorem storeInserted_calm {m m' : CandidateMetadata} (hm : s.candidateInfo.get c = some m)
    (hfrom : m'.CalmFrom m) (h : storeInserted c m' s = (.ok u, s')) : Calm s.Waiting s' := by
  obtain ⟨pool, -, h⟩ := getOr_bind_ok.mp h
  obtain rfl := Tx.modify_ok.mp h
  exact ((Calm.refl s).insertCandidate hm hfrom).behind rfl

theorem goOnline_calmFrom (m : CandidateMetadata) : m.goOnline.CalmFrom m := by
  refine ⟨?_, fun _ hr => hr⟩
  intro when hwhen
  cases hwhen

theorem goOffline_calmFrom (m : CandidateMetadata) : m.goOffline.CalmFrom m := by
  refine ⟨?_, fun _ hr => hr⟩
  intro when hwhen
  cases hwhen

theorem cancelLeaveCandidates_calm {n : ℕ}
    (h : cancelLeaveCandidates origin n s = (.ok u, s')) : Calm s.Waiting s' := by
  obtain ⟨c, m, -, hm, hstore⟩ := cancelLeaveCandidates_ok h
  exact storeInserted_calm hm (goOnline_calmFrom m) hstore

theorem goOffline_calm (h : goOffline origin s = (.ok u, s')) : Calm s.Waiting s' := by
  obtain ⟨c, m, hm, -, hstore⟩ := goOffline_ok h
  exact storeRemoved_calm hm (goOffline_calmFrom m) hstore

theorem goOnline_calm (h : goOnline origin s = (.ok u, s')) : Calm s.Waiting s' := by
  obtain ⟨c, m, hm, -, hstore⟩ := goOnline_ok h
  exact storeInserted_calm hm (goOnline_calmFrom m) hstore

theorem candidateBondMore_calm {more : ℕ}
    (h : candidateBondMore origin more s = (.ok u, s')) : Calm s.Waiting s' := by
  obtain ⟨c, m, m', hm, -, hm', rfl⟩ := candidateBondMore_ok h
  have hfrom : m'.CalmFrom m := by
    rw [hm']
    exact ⟨fun _ hwhen => hwhen, fun _ hr => hr⟩
  exact ((Calm.refl s).insertCandidate hm hfrom).behind rfl

theorem executeCandidateBondLess_calm
    (h : executeCandidateBondLess origin c s = (.ok u, s')) : Calm s.Waiting s' := by
  obtain ⟨m, m', r, hm, -, -, hm', rfl⟩ := executeCandidateBondLess_ok h
  have hfrom : m'.CalmFrom m := by
    rw [hm']
    refine ⟨fun _ hwhen => hwhen, ?_⟩
    intro q hq
    cases hq
  exact ((Calm.refl s).insertCandidate hm hfrom).behind rfl

theorem cancelCandidateBondLess_calm
    (h : cancelCandidateBondLess origin s = (.ok u, s')) : Calm s.Waiting s' := by
  obtain ⟨c, m, hm, rfl⟩ := cancelCandidateBondLess_ok h
  apply (Calm.refl s).insertCandidate hm
  refine ⟨fun _ hwhen => hwhen, ?_⟩
  intro q hq
  cases hq

theorem joinCandidates_calm {bond n : ℕ} (h : joinCandidates origin bond n s = (.ok u, s')) :
    Calm s.Waiting s' := by
  obtain ⟨c, pool, world, -, -, -, -, -, -, rfl⟩ := joinCandidates_ok h
  have hnew : ∀ b m, (s.candidateInfo.insert c (.new bond)).get b = some m →
      (∃ when, m.status = .leaving when) ∨ (∃ r, m.request = some r) →
        s.candidateInfo.get b = some m := by
    apply forall_insert
    · rintro (⟨when, hwhen⟩ | ⟨r, hr⟩)
      · cases hwhen
      · cases hr
    · exact fun b m _ hm _ => hm
  intro p hp
  cases p with
  | leaveCandidates b when =>
    obtain ⟨m, hm, hstatus⟩ := hp
    exact ⟨m, hnew b m hm (.inl ⟨when, hstatus⟩), hstatus⟩
  | candidateBondLess b request =>
    obtain ⟨m, hm, hrequest⟩ := hp
    exact ⟨m, hnew b m hm (.inr ⟨request, hrequest⟩), hrequest⟩
  | delegation => exact hp
  | leaveDelegators => exact hp

theorem executeLeaveCandidates_calm {n : ℕ}
    (h : executeLeaveCandidates origin c n s = (.ok u, s')) : Calm s.Waiting s' := by
  obtain ⟨_, _, _, _, s₁, s₂, -, -, -, -, htop, -, hbottom, rfl⟩ := executeLeaveCandidates_ok h
  have hcalm : Calm s.Waiting s₁ := by
    refine Calm.trans ?_ (returnStakes_calm htop)
    exact .of_queues rfl
  have hcalm' : Calm s.Waiting s₂ := by
    refine Calm.trans ?_ (returnStakes_calm hbottom)
    exact hcalm.behind rfl
  have hnone : ∀ r ∈ ([] : List (ScheduledRequest R.Account)),
      r ∈ s.delegationScheduledRequests c := fun r hr => by cases hr
  exact (hcalm'.removeCandidate.setRequests hnone).behind rfl

end Calls
end Staking
end ZkNft
