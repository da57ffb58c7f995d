import ZkNft.Staking.Waiting

/-! No call changes the current round, and one alone its length. -/

namespace ZkNft
namespace Staking

variable {R : Runtime} {c d : R.Account} {m : CandidateMetadata} {origin : Origin R}

abbrev current (s : State R) : ℕ := s.round.current

theorem offDelegators_round : OffDelegators (State.round (R := R)) := fun _ _ _ _ => rfl

theorem offLists_round : OffLists (State.round (R := R)) := fun _ _ _ _ => rfl

section Lists

theorem addBottomDelegation_round (b : Bool) (x : Bond R.Account) :
    (m.addBottomDelegation b c x).Keeps State.round := by
  unfold CandidateMetadata.addBottomDelegation
  apply Tx.Keeps.bind (.read _)
  intro bottom
  apply Tx.Keeps.bind (makeRoom_keeps offDelegators_round _ _ _)
  exact fun _ => .bind (.modify fun _ => rfl) fun _ => .pure _

theorem addTopDelegation_round (x : Bond R.Account) :
    (m.addTopDelegation c x).Keeps State.round := by
  unfold CandidateMetadata.addTopDelegation CandidateMetadata.bumpLowestTop
  apply Tx.Keeps.bind (.read _)
  intro top
  apply Tx.Keeps.bind
  · apply Tx.Keeps.ite
    · apply Tx.Keeps.bind (.read _)
      exact fun _ => .bind (addBottomDelegation_round _ _) fun _ => .pure _
    · exact .pure _
  · intro _
    apply Tx.Keeps.bind (resetTopData_keeps offLists_round _ _)
    exact fun _ => .bind (.modify fun _ => rfl) fun _ => .pure _

theorem addDelegation_round (x : Bond R.Account) : (m.addDelegation c x).Keeps State.round := by
  unfold CandidateMetadata.addDelegation
  apply Tx.Keeps.ite
  · apply Tx.Keeps.ite (addTopDelegation_round _)
    dsimp only
    apply Tx.Keeps.ite
    · apply Tx.Keeps.bind (.read _)
      exact fun _ => .bind (addBottomDelegation_round _ _) fun _ => .pure _
    · exact .bind (addBottomDelegation_round _ _) fun _ => .pure _
  · exact .bind (addTopDelegation_round _) fun _ => .pure _

theorem delegatorLeavesCandidate_round (a : ℕ) :
    (delegatorLeavesCandidate c d a).Keeps State.round := by
  unfold delegatorLeavesCandidate
  apply Tx.Keeps.bind (.read _)
  intro m
  apply Tx.Keeps.bind (rmDelegationIfExists_keeps offLists_round a)
  exact fun _ => .modify fun _ => rfl

theorem leaveOrLog_round (a : ℕ) : (leaveOrLog c d a).Keeps State.round :=
  .recover _ (delegatorLeavesCandidate_round a) (.pure _)

theorem leaveAll_round (bonds : List (Bond R.Account)) :
    (leaveAll d bonds).Keeps State.round := by
  induction bonds with
  | nil => exact .pure _
  | cons x bonds ih => exact .bind (leaveOrLog_round _) fun _ => ih

theorem leaveAllDeprecated_round (bonds : List (Bond R.Account)) (D : Delegator R.Account) :
    (leaveAllDeprecated d D bonds).Keeps State.round := by
  induction bonds generalizing D with
  | nil => exact .pure _
  | cons x bonds ih =>
    apply Tx.Keeps.bind (leaveOrLog_round _)
    intro _
    apply Tx.Keeps.bind (delegationRemoveRequestWithState_keeps offDelegators_round _ _ _)
    exact fun D' => ih D'

end Lists

section Delegators

theorem delegatorExecuteScheduledRevokeAll_round (n : ℕ) :
    (delegatorExecuteScheduledRevokeAll d n).Keeps State.round := by
  unfold delegatorExecuteScheduledRevokeAll
  apply Tx.Keeps.bind (.read _)
  intro D
  apply Tx.Keeps.bind (.read _)
  intro _
  cases D.status with
  | leaving when =>
    apply Tx.Keeps.bind (.read _)
    intro _
    apply Tx.Keeps.bind (leaveAllDeprecated_round _ _)
    exact fun _ => .modify fun _ => rfl
  | active =>
    apply Tx.Keeps.bind (validateRevokes_keeps _ _)
    intro validated
    apply Tx.Keeps.bind (leaveAll_round _)
    intro _
    apply Tx.Keeps.bind
    · exact .bind (adjustBondLock_keeps offDelegators_round _ _) fun _ => .pure _
    · exact fun _ => .modify fun _ => keeps_setAllRequests offDelegators_round _ _

theorem increaseDelegation_round (D : Delegator R.Account) (more : ℕ) :
    (D.increaseDelegation c more).Keeps State.round := by
  unfold Delegator.increaseDelegation Delegator.storeIncrease
  apply Tx.Keeps.bind (.read _)
  intro before
  apply Tx.Keeps.bind (adjustBondLock_keeps offDelegators_round _ _)
  intro _
  apply Tx.Keeps.bind (.read _)
  intro m
  apply Tx.Keeps.bind (increaseDelegation_keeps offLists_round _ _)
  intro m'
  dsimp only
  apply Tx.Keeps.ite
  · exact .bind (.modify fun _ => rfl) fun _ => .modify fun _ => rfl
  · exact .modify fun _ => rfl

theorem executeRevoke_round (D : Delegator R.Account) (a : ℕ)
    (rest : List (ScheduledRequest R.Account)) :
    (executeRevoke c d D a rest).Keeps State.round := by
  have hrest : ∀ leaving : Bool, ({ D with lessTotal := D.lessTotal - a }.rmDelegation c >>=
      fun removed => do
        delegatorLeavesCandidate c d a
        Tx.modify fun s => { s.setRequests c rest with
          delegatorState := if leaving then s.delegatorState.remove d
            else s.delegatorState.insert d removed.2 } : Update R PUnit).Keeps State.round := by
    intro leaving
    apply Tx.Keeps.bind (rmDelegation_keeps offDelegators_round _ _)
    intro _
    apply Tx.Keeps.bind (delegatorLeavesCandidate_round a)
    exact fun _ => .modify fun _ => rfl
  unfold executeRevoke
  dsimp only
  apply Tx.Keeps.ite
  · exact .bind (.read _) fun _ => hrest _
  · exact hrest _

theorem executeDecrease_round (D : Delegator R.Account) (less : ℕ)
    (rest : List (ScheduledRequest R.Account)) :
    (executeDecrease c d D less rest).Keeps State.round := by
  unfold executeDecrease Delegator.totalSubIf
  apply Tx.Keeps.bind (.read _)
  intro before
  apply Tx.Keeps.bind (.read _)
  intro _
  apply Tx.Keeps.bind (.read _)
  intro m
  apply Tx.Keeps.bind
  · apply Tx.Keeps.bind (.read _)
    intro _
    apply Tx.Keeps.bind (.read _)
    exact fun _ => .bind (adjustBondLock_keeps offDelegators_round _ _) fun _ => .pure _
  · intro D'
    apply Tx.Keeps.bind (decreaseDelegation_keeps offLists_round _ _)
    exact fun _ => .modify fun _ => rfl

theorem delegationExecuteScheduledRequest_round :
    (delegationExecuteScheduledRequest c d).Keeps State.round := by
  unfold delegationExecuteScheduledRequest
  apply Tx.Keeps.bind (.read _)
  intro D
  apply Tx.Keeps.bind (.read _)
  intro requests
  apply Tx.Keeps.bind (.read _)
  intro taken
  apply Tx.Keeps.bind (.read _)
  intro _
  cases taken.1.action with
  | revoke a => exact executeRevoke_round _ _ _
  | decrease less => exact executeDecrease_round _ _ _

end Delegators

section Calls

/-- A call that reads who signed it first. -/
theorem signed_round {f : R.Account → Update R PUnit} (hf : ∀ who, (f who).Keeps State.round) :
    (Tx.transactional do
      let who ← Tx.read fun _ => ensureSigned origin
      f who).Keeps State.round :=
  .transactional (.bind (.read _) hf)

theorem editCandidate_bind_round
    {f : State R → CandidateMetadata → Except Error CandidateMetadata}
    {g : CandidateMetadata → Update R PUnit} (hg : ∀ m, (g m).Keeps State.round) :
    (editCandidate c f >>= g).Keeps State.round := by
  apply Tx.Keeps.bind
  · exact .bind (.read _) fun _ => .read _
  · exact hg

theorem storeInserted_round : (storeInserted c m).Keeps State.round := by
  apply Tx.Keeps.bind (.read _)
  exact fun _ => .modify fun _ => rfl

theorem joinCandidates_round (bond n : ℕ) : (joinCandidates origin bond n).Keeps State.round := by
  apply signed_round
  intro who
  apply Tx.Keeps.bind (.read _)
  intro _
  apply Tx.Keeps.bind (.read _)
  intro _
  apply Tx.Keeps.bind
  · apply Tx.Keeps.bind (.read _)
    intro listed
    apply Tx.Keeps.ite
    · apply Tx.Keeps.bind (.read _)
      intro _
      apply Tx.Keeps.bind (.read _)
      intro world
      exact .bind (.modify fun _ => rfl) fun _ => .read _
    · exact .read _
  · intro _
    apply Tx.Keeps.bind (.read _)
    intro _
    apply Tx.Keeps.bind (.read _)
    intro pool
    apply Tx.Keeps.bind (.read _)
    exact fun _ => .modify fun _ => rfl

theorem executeLeaveCandidates_round (n : ℕ) :
    (executeLeaveCandidates origin c n).Keeps State.round := by
  apply signed_round
  intro _
  apply Tx.Keeps.bind (.read _)
  intro m
  apply Tx.Keeps.bind (.read _)
  intro _
  apply Tx.Keeps.bind (.read _)
  intro _
  apply Tx.Keeps.bind (.read _)
  intro top
  apply Tx.Keeps.bind
  · exact .modify fun _ => rfl
  intro _
  apply Tx.Keeps.bind (returnStakes_keeps offDelegators_round _ _)
  intro _
  apply Tx.Keeps.bind (.read _)
  intro bottom
  apply Tx.Keeps.bind
  · exact .modify fun _ => rfl
  intro _
  apply Tx.Keeps.bind (returnStakes_keeps offDelegators_round _ _)
  exact fun _ => .modify fun _ => rfl

theorem candidateBondMore_round (more : ℕ) : (candidateBondMore origin more).Keeps State.round := by
  apply signed_round
  intro who
  apply Tx.Keeps.bind (.read _)
  intro m
  apply Tx.Keeps.bind
  · apply Tx.Keeps.bind (.read _)
    exact fun _ => .bind (.modify fun _ => rfl) fun _ => .pure _
  · intro m'
    exact .bind (.modify fun _ => rfl) fun _ => .ite (.modify fun _ => rfl) (.pure _)

theorem executeCandidateBondLess_round : (executeCandidateBondLess origin c).Keeps State.round := by
  apply signed_round
  intro who
  apply Tx.Keeps.bind (.read _)
  intro m
  apply Tx.Keeps.bind
  · apply Tx.Keeps.bind (.read _)
    intro request
    apply Tx.Keeps.bind (.read _)
    intro _
    apply Tx.Keeps.bind
    · exact .modify fun _ => rfl
    · intro _
      exact .ite (.bind (.modify fun _ => rfl) fun _ => .pure _) (.pure _)
  · exact fun _ => .modify fun _ => rfl

theorem delegate_round (a n k : ℕ) : (delegate origin c a n k).Keeps State.round := by
  apply signed_round
  intro who
  apply Tx.Keeps.bind (.read _)
  intro _
  apply Tx.Keeps.bind (.read _)
  intro D
  apply Tx.Keeps.bind (.read _)
  intro m
  apply Tx.Keeps.bind (.read _)
  intro _
  apply Tx.Keeps.bind (addDelegation_round _)
  intro added
  apply Tx.Keeps.bind (adjustBondLock_keeps offDelegators_round _ _)
  exact fun _ => .modify fun _ => rfl

theorem setTotalSelected_round (n : ℕ) : (setTotalSelected origin n).Keeps State.round := by
  apply Tx.Keeps.transactional
  apply Tx.Keeps.bind (.read _)
  intro _
  apply Tx.Keeps.bind (.read _)
  intro _
  apply Tx.Keeps.bind (.read _)
  intro _
  apply Tx.Keeps.bind (.read _)
  exact fun _ => .modify fun _ => rfl

/-- Only `setBlocksPerRound` changes the round. -/
theorem Call.dispatch_round (call : Call R) (h : ∀ n, call ≠ .setBlocksPerRound n) :
    (call.dispatch origin).Keeps State.round := by
  cases call with
  | setTotalSelected n => exact setTotalSelected_round n
  | setBlocksPerRound n => exact absurd rfl (h n)
  | joinCandidates bond n => exact joinCandidates_round bond n
  | scheduleLeaveCandidates n =>
    apply signed_round
    intro who
    apply editCandidate_bind_round
    exact fun m => .bind (.read _) fun _ => .modify fun _ => rfl
  | executeLeaveCandidates c n => exact executeLeaveCandidates_round n
  | cancelLeaveCandidates n =>
    apply signed_round
    intro who
    apply editCandidate_bind_round
    exact fun m => .bind (.read _) fun _ => storeInserted_round
  | goOffline =>
    apply signed_round
    intro who
    exact editCandidate_bind_round fun m => .modify fun _ => rfl
  | goOnline =>
    apply signed_round
    intro who
    exact editCandidate_bind_round fun m => storeInserted_round
  | candidateBondMore more => exact candidateBondMore_round more
  | scheduleCandidateBondLess less =>
    apply signed_round
    intro who
    exact editCandidate_bind_round fun m => .modify fun _ => rfl
  | executeCandidateBondLess c => exact executeCandidateBondLess_round
  | cancelCandidateBondLess =>
    apply signed_round
    intro who
    exact editCandidate_bind_round fun m => .modify fun _ => rfl
  | delegate c a n k => exact delegate_round a n k
  | scheduleLeaveDelegators =>
    exact signed_round (delegatorScheduleRevokeAll_keeps offDelegators_round)
  | executeLeaveDelegators d n =>
    exact signed_round fun _ => delegatorExecuteScheduledRevokeAll_round n
  | cancelLeaveDelegators =>
    exact signed_round (delegatorCancelScheduledRevokeAll_keeps offDelegators_round)
  | scheduleRevokeDelegation c =>
    exact signed_round (delegationScheduleRevoke_keeps offDelegators_round c)
  | delegatorBondMore c more =>
    apply signed_round
    intro who
    apply Tx.Keeps.bind (.read _)
    intro _
    exact .bind (.read _) fun D => increaseDelegation_round D more
  | scheduleDelegatorBondLess c less =>
    exact signed_round
      fun d => delegationScheduleBondDecrease_keeps offDelegators_round c d less
  | executeDelegationRequest d c =>
    exact signed_round fun _ => delegationExecuteScheduledRequest_round
  | cancelDelegationRequest c =>
    exact signed_round (delegationCancelRequest_keeps offDelegators_round c)

theorem setBlocksPerRound_current (n : ℕ) : (setBlocksPerRound origin n).Keeps current := by
  apply Tx.Keeps.transactional
  apply Tx.Keeps.bind (.read _)
  intro _
  apply Tx.Keeps.bind (.read _)
  intro _
  apply Tx.Keeps.bind (.read _)
  intro _
  apply Tx.Keeps.bind (.read _)
  exact fun _ => .modify fun _ => rfl

theorem Call.dispatch_current (call : Call R) : (call.dispatch origin).Keeps current := by
  by_cases h : ∃ n, call = .setBlocksPerRound n
  · obtain ⟨n, rfl⟩ := h
    exact setBlocksPerRound_current n
  · have hround : (call.dispatch origin).Keeps State.round :=
      call.dispatch_round fun n hn => h ⟨n, hn⟩
    exact fun s => congrArg RoundInfo.current (hround s)

end Calls
end Staking
end ZkNft
