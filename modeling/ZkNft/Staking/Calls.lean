import ZkNft.Staking.Pallet

/-! The calls of parachain staking and their dispatch. -/

namespace ZkNft
namespace Staking

variable {R : Runtime}

def delegatorLeavesCandidate (candidate delegator : R.Account) (amount : ℕ) : Update R PUnit := do
  let state ← getOr (fun s => s.candidateInfo.get candidate) .candidateDNE
  let state ← state.rmDelegationIfExists candidate delegator amount
  Tx.modify fun s => { s with
    total := s.total - amount
    candidateInfo := s.candidateInfo.insert candidate state }

/-- The part of `Delegator::increase_delegation` that follows the change of the bond `x`. -/
def Delegator.storeIncrease (self : Delegator R.Account) (candidate : R.Account)
    (before amount : ℕ) : Update R PUnit := do
  self.adjustBondLock (.increase amount)
  let info ← getOr (fun s => s.candidateInfo.get candidate) .candidateDNE
  let new ← info.increaseDelegation candidate self.id before amount
  if new.isActive = true ∧ info.totalCounted ≠ new.totalCounted then
    updateActive candidate new.totalCounted
  Tx.modify fun s => { s with
    candidateInfo := s.candidateInfo.insert candidate new
    total := satAdd s.total amount
    delegatorState := s.delegatorState.insert self.id self }

/-- The entries of a delegator with the first one of `candidate` changed by `f`. -/
def changeFirst {A : Type} [DecidableEq A] (candidate : A) (f : ℕ → ℕ) :
    List (Bond A) → List (Bond A)
  | [] => []
  | x :: xs => if x.owner = candidate then ⟨x.owner, f x.amount⟩ :: xs
    else x :: changeFirst candidate f xs

def Delegator.increaseDelegation (self : Delegator R.Account) (candidate : R.Account)
    (amount : ℕ) : Update R PUnit := do
  let before ← getOr (fun _ => self.getBondAmount candidate) .delegationDNE
  { self with
    delegations := changeFirst candidate (satAdd · amount) self.delegations
    total := satAdd self.total amount }.storeIncrease candidate before amount

section DelegationRequests

def hasRequest (requests : List (ScheduledRequest R.Account)) (delegator : R.Account) : Bool :=
  requests.any fun r => r.delegator = delegator

def delegationRequestRevokeExists (s : State R) (collator delegator : R.Account) : Bool :=
  (s.delegationScheduledRequests collator).any fun r =>
    r.delegator = delegator && r.action.isRevoke

def readRequests (collator : R.Account) : Update R (List (ScheduledRequest R.Account)) :=
  Tx.read fun s => .ok (s.delegationScheduledRequests collator)

def currentRound : Update R ℕ := Tx.read fun s => .ok s.round.current

/-- Store a new request of a delegator, whose state counts its amount. -/
def scheduleRequest (collator : R.Account) (state : Delegator R.Account)
    (requests : List (ScheduledRequest R.Account)) (request : ScheduledRequest R.Account) :
    Update R PUnit :=
  Tx.modify fun s =>
    { s.setRequests collator (requests ++ [request]) with
      delegatorState := s.delegatorState.insert request.delegator
        { state with lessTotal := satAdd state.lessTotal request.action.amount } }

def delegationScheduleRevoke (collator delegator : R.Account) : Update R PUnit := do
  let state ← getOr (fun s => s.delegatorState.get delegator) .delegatorDNE
  let requests ← readRequests collator
  ensure (fun _ => !hasRequest requests delegator) .pendingDelegationRequestAlreadyExists
  let bonded ← getOr (fun _ => state.getBondAmount collator) .delegationDNE
  let now ← currentRound
  scheduleRequest collator state requests
    ⟨delegator, satAddRounds now R.revokeDelegationDelay, .revoke bonded⟩

/-- The delay is the one of a revoke. -/
def delegationScheduleBondDecrease (collator delegator : R.Account) (decreaseAmount : ℕ) :
    Update R PUnit := do
  let state ← getOr (fun s => s.delegatorState.get delegator) .delegatorDNE
  let requests ← readRequests collator
  ensure (fun _ => !hasRequest requests delegator) .pendingDelegationRequestAlreadyExists
  let bonded ← getOr (fun _ => state.getBondAmount collator) .delegationDNE
  ensure (fun _ => bonded > decreaseAmount) .delegatorBondBelowMin
  ensure (fun _ => bonded - decreaseAmount ≥ R.minDelegation) .delegationBelowMin
  ensure (fun _ => decreaseAmount ≤ state.total - state.lessTotal - R.minDelegatorStk)
    .delegatorBondBelowMin
  let now ← currentRound
  scheduleRequest collator state requests
    ⟨delegator, satAddRounds now R.revokeDelegationDelay, .decrease decreaseAmount⟩

/-- The request that is cancelled, with the state and the requests that are left. -/
def cancelRequestWithState (delegator : R.Account) (state : Delegator R.Account)
    (requests : List (ScheduledRequest R.Account)) :
    Option (ScheduledRequest R.Account × Delegator R.Account ×
      List (ScheduledRequest R.Account)) :=
  (takeRequest delegator requests).map fun (request, rest) =>
    (request, { state with lessTotal := state.lessTotal - request.action.amount }, rest)

def delegationCancelRequest (collator delegator : R.Account) : Update R PUnit := do
  let state ← getOr (fun s => s.delegatorState.get delegator) .delegatorDNE
  let requests ← readRequests collator
  let (_, state, requests) ← getOr (fun _ => cancelRequestWithState delegator state requests)
    .pendingDelegationRequestDNE
  Tx.modify fun s =>
    { s.setRequests collator requests with
      delegatorState := s.delegatorState.insert delegator state }

/-- A due revoke of `amount`, with the requests that are left. -/
def executeRevoke (collator delegator : R.Account) (state : Delegator R.Account) (amount : ℕ)
    (rest : List (ScheduledRequest R.Account)) : Update R PUnit := do
  let leaving := decide (state.delegations.length = 1)
  if !leaving then
    ensure (fun _ => state.total - R.minDelegatorStk ≥ amount) .delegatorBondBelowMin
  let state := { state with lessTotal := state.lessTotal - amount }
  let (_, state) ← state.rmDelegation collator
  delegatorLeavesCandidate collator delegator amount
  Tx.modify fun s =>
    { s.setRequests collator rest with
      delegatorState := if leaving then s.delegatorState.remove delegator
        else s.delegatorState.insert delegator state }

/-- `total_sub_if` with the checks on what is left. -/
def Delegator.totalSubIf (self : Delegator R.Account) (amount : ℕ) :
    Update R (Delegator R.Account) := do
  let total := self.total - amount
  ensure (fun _ => total ≥ R.minDelegation) .delegationBelowMin
  ensure (fun _ => total ≥ R.minDelegatorStk) .delegatorBondBelowMin
  let self := { self with total }
  self.adjustBondLock .decrease
  return self

/-- A due decrease by `amount`, with the requests that are left. -/
def executeDecrease (collator delegator : R.Account) (state : Delegator R.Account) (amount : ℕ)
    (rest : List (ScheduledRequest R.Account)) : Update R PUnit := do
  let before ← getOr (fun _ => state.getBondAmount collator) .delegationDNE
  ensure (fun _ => before > amount) .delegationBelowMin
  let state := { state with
    lessTotal := state.lessTotal - amount
    delegations := changeFirst collator (· - amount) state.delegations }
  let info ← getOr (fun s => s.candidateInfo.get collator) .candidateDNE
  let state ← state.totalSubIf amount
  let info ← info.decreaseDelegation collator delegator before amount
  Tx.modify fun s =>
    { s.setRequests collator rest with
      candidateInfo := s.candidateInfo.insert collator info
      total := s.total - amount
      delegatorState := s.delegatorState.insert delegator state }

def delegationExecuteScheduledRequest (collator delegator : R.Account) : Update R PUnit := do
  let state ← getOr (fun s => s.delegatorState.get delegator) .delegatorDNE
  let requests ← readRequests collator
  let (request, rest) ← getOr (fun _ => takeRequest delegator requests)
    .pendingDelegationRequestDNE
  ensure (fun s => request.whenExecutable ≤ s.round.current) .pendingDelegationRequestNotDueYet
  match request.action with
  | .revoke amount => executeRevoke collator delegator state amount rest
  | .decrease amount => executeDecrease collator delegator state amount rest

/-- The requests of one collator, and the state, after the delegation `bond` is to be revoked; and
whether a revoke was there before. -/
def rescheduleRevoke (s : State R) (delegator : R.Account) (when : ℕ)
    (state : Delegator R.Account) (bond : Bond R.Account) :
    Delegator R.Account × List (ScheduledRequest R.Account) × Bool :=
  let requests := s.delegationScheduledRequests bond.owner
  let new : ScheduledRequest R.Account := ⟨delegator, when, .revoke bond.amount⟩
  match cancelRequestWithState delegator state requests with
  | some (request, state, rest) =>
    let state' := { state with lessTotal := satAdd state.lessTotal bond.amount }
    if request.action.isRevoke then (state', rest ++ [request], true)
    else (state', rest ++ [new], false)
  | none =>
    ({ state with lessTotal := satAdd state.lessTotal bond.amount }, requests ++ [new], false)

/-- The loop of `delegator_schedule_revoke_all`: the state, the updated requests and the number of
revokes that were there before. -/
def rescheduleAll (s : State R) (delegator : R.Account) (when : ℕ) :
    (state : Delegator R.Account) → List (Bond R.Account) →
    Delegator R.Account × List (R.Account × List (ScheduledRequest R.Account)) × ℕ
  | state, [] => (state, [], 0)
  | state, bond :: bonds =>
    let (state, requests, existing) := rescheduleRevoke s delegator when state bond
    let (state, updated, count) := rescheduleAll s delegator when state bonds
    (state, (bond.owner, requests) :: updated, if existing then count + 1 else count)

/-- Store the requests of several collators. -/
def State.setAllRequests (s : State R)
    (updated : List (R.Account × List (ScheduledRequest R.Account))) : State R :=
  updated.foldl (fun s x => s.setRequests x.1 x.2) s

def delegatorScheduleRevokeAll (delegator : R.Account) : Update R PUnit := do
  let state ← getOr (fun s => s.delegatorState.get delegator) .delegatorDNE
  let now ← currentRound
  -- lazy migration of the leaving status
  let state : Delegator R.Account := { state with status := .active }
  let (state, updated, existing) ← Tx.read fun s =>
    .ok (rescheduleAll s delegator (satAddRounds now R.leaveDelegatorsDelay) state
      state.delegations)
  ensure (fun _ => existing ≠ state.delegations.length) .delegatorAlreadyLeaving
  Tx.modify fun s =>
    { s.setAllRequests updated with
      delegatorState := s.delegatorState.insert delegator state }

/-- The loop of `delegator_cancel_scheduled_revoke_all`. -/
def cancelAll (s : State R) (delegator : R.Account) : (state : Delegator R.Account) →
    List (Bond R.Account) →
    Delegator R.Account × List (R.Account × List (ScheduledRequest R.Account))
  | state, [] => (state, [])
  | state, bond :: bonds =>
    let requests := s.delegationScheduledRequests bond.owner
    let (state, rest) := (cancelRequestWithState delegator state requests).elim (state, requests)
      fun (_, state, rest) => (state, rest)
    let (state, updated) := cancelAll s delegator state bonds
    (state, (bond.owner, rest) :: updated)

def delegatorCancelScheduledRevokeAll (delegator : R.Account) : Update R PUnit := do
  let state ← getOr (fun s => s.delegatorState.get delegator) .delegatorDNE
  match state.status with
  | .leaving _ =>
    Tx.modify fun s => { s with
      delegatorState := s.delegatorState.insert delegator { state with status := .active } }
  | .active => do
    ensure (fun s => state.delegations.all fun bond =>
      delegationRequestRevokeExists s bond.owner delegator) .delegatorNotLeaving
    let (state, updated) ← Tx.read fun s => .ok (cancelAll s delegator state state.delegations)
    Tx.modify fun s =>
      { s.setAllRequests updated with
        delegatorState := s.delegatorState.insert delegator state }

/-- An error of `delegator_leaves_candidate` is only logged. -/
def leaveOrLog (candidate delegator : R.Account) (amount : ℕ) : Update R PUnit :=
  Tx.recover (fun _ => true) (delegatorLeavesCandidate candidate delegator amount) (pure ⟨⟩)

/-- The loop over the delegations of a delegator with the leaving status. -/
def leaveAllDeprecated (delegator : R.Account) : (state : Delegator R.Account) →
    List (Bond R.Account) → Update R PUnit
  | _, [] => pure ⟨⟩
  | state, bond :: bonds => do
    leaveOrLog bond.owner delegator bond.amount
    let state ← delegationRemoveRequestWithState bond.owner delegator state
    leaveAllDeprecated delegator state bonds

/-- The first revoke of `delegator` among the requests, and the list without it. -/
def takeRevoke (delegator : R.Account) (requests : List (ScheduledRequest R.Account)) :
    Option (ScheduledRequest R.Account × List (ScheduledRequest R.Account)) :=
  (requests.find? fun r => r.delegator = delegator && r.action.isRevoke).map fun request =>
    (request, requests.eraseP fun r => r.delegator = delegator && r.action.isRevoke)

/-- The loop that checks that every delegation has a due revoke, with the requests that are left
for each collator. -/
def validateRevokes (delegator : R.Account) : List (Bond R.Account) →
    Update R (List (Bond R.Account × List (ScheduledRequest R.Account)))
  | [] => pure []
  | bond :: bonds => do
    let requests ← readRequests bond.owner
    let (request, rest) ← getOr (fun _ => takeRevoke delegator requests) .delegatorNotLeaving
    ensure (fun s => request.whenExecutable ≤ s.round.current) .delegatorCannotLeaveYet
    let validated ← validateRevokes delegator bonds
    return (bond, rest) :: validated

/-- The loop that takes the delegations of a delegator off their candidates. -/
def leaveAll (delegator : R.Account) : List (Bond R.Account) → Update R PUnit
  | [] => pure ⟨⟩
  | bond :: bonds => do
    leaveOrLog bond.owner delegator bond.amount
    leaveAll delegator bonds

def delegatorExecuteScheduledRevokeAll (delegator : R.Account) (delegationCount : ℕ) :
    Update R PUnit := do
  let state ← getOr (fun s => s.delegatorState.get delegator) .delegatorDNE
  ensure (fun _ => delegationCount ≥ state.delegations.length)
    .tooLowDelegationCountToLeaveDelegators
  match state.status with
  | .leaving when => do
    ensure (fun s => s.round.current ≥ when) .delegatorCannotLeaveYet
    leaveAllDeprecated delegator state state.delegations
    Tx.modify fun s => { s with delegatorState := s.delegatorState.remove delegator }
  | .active => do
    let validated ← validateRevokes delegator state.delegations
    leaveAll delegator (validated.map Prod.fst)
    let _ ← state.totalSub state.total
    Tx.modify fun s =>
      { s.setAllRequests (validated.map fun x => (x.1.owner, x.2)) with
        delegatorState := s.delegatorState.remove delegator }

end DelegationRequests

section Calls

def setTotalSelected (origin : Origin R) (new : ℕ) : Update R PUnit := Tx.transactional do
  Tx.read fun _ => ensureRoot origin
  ensure (fun _ => new ≥ R.minSelectedCandidates) .cannotSetBelowMin
  ensure (fun s => s.totalSelected ≠ new) .noWritingSameValue
  ensure (fun s => new ≤ s.round.length) .roundLengthMustBeAtLeastTotalSelectedCollators
  Tx.modify fun s => { s with totalSelected := new }

def setBlocksPerRound (origin : Origin R) (new : ℕ) : Update R PUnit := Tx.transactional do
  Tx.read fun _ => ensureRoot origin
  ensure (fun _ => new ≥ R.minBlocksPerRound) .cannotSetBelowMin
  ensure (fun s => s.round.length ≠ new) .noWritingSameValue
  ensure (fun s => new ≥ s.totalSelected) .roundLengthMustBeAtLeastTotalSelectedCollators
  Tx.modify fun s => { s with round := { s.round with length := new } }

/-- The bond is enough for the account, which leaves the whitelist if it is on it. -/
def checkCandidateBond (acc : R.Account) (bond : ℕ) : Update R PUnit := do
  let listed ← Tx.read fun s => .ok (decide (acc ∈ R.whitelist s.world))
  if listed then do
    ensure (fun _ => bond ≥ R.minWhitelistCandidateStk) .candidateBondBelowMin
    let world ← getOr (fun s => R.leaveIntent s.world acc) .candidateCannotLeaveYet
    Tx.modify fun s => { s with world }
    ensure (fun s => decide (acc ∉ R.whitelist s.world)) .candidateExists
  else
    ensure (fun _ => bond ≥ R.minCandidateStk) .candidateBondBelowMin

def joinCandidates (origin : Origin R) (bond candidateCount : ℕ) : Update R PUnit :=
  Tx.transactional do
    let acc ← Tx.read fun _ => ensureSigned origin
    ensure (fun s => !s.isCandidate acc) .candidateExists
    ensure (fun s => !s.isDelegator acc) .delegatorExists
    checkCandidateBond acc bond
    ensure (fun s => candidateCount ≥ s.candidatePool.length)
      .tooLowCandidateCountWeightHintJoinCandidates
    let candidatePool ← getOr (fun s => OrderedSet.insert s.candidatePool ⟨acc, bond⟩)
      .candidateExists
    ensure (fun s => s.collatorStakableFreeBalance acc ≥ bond) .insufficientBalance
    Tx.modify fun s => { s with
      world := R.setLock s.world .collator acc bond
      candidateInfo := s.candidateInfo.insert acc (.new bond)
      topDelegations := s.topDelegations.insert acc .empty
      bottomDelegations := s.bottomDelegations.insert acc .empty
      candidatePool
      total := satAdd s.total bond }

/-- A change of a candidate's metadata that can fail. -/
def editCandidate (candidate : R.Account)
    (f : State R → CandidateMetadata → Except Error CandidateMetadata) :
    Update R CandidateMetadata := do
  let state ← getOr (fun s => s.candidateInfo.get candidate) .candidateDNE
  Tx.read fun s => .lift ((f s state).mapError .module)

/-- Store a candidate that is no longer in the pool. -/
def storeRemoved (collator : R.Account) (state : CandidateMetadata) : Update R PUnit :=
  Tx.modify fun s => { s with
    candidatePool := (OrderedSet.remove s.candidatePool collator).getD s.candidatePool
    candidateInfo := s.candidateInfo.insert collator state }

/-- Store a candidate that comes back to the pool. -/
def storeInserted (collator : R.Account) (state : CandidateMetadata) : Update R PUnit := do
  let candidatePool ← getOr
    (fun s => OrderedSet.insert s.candidatePool ⟨collator, state.totalCounted⟩) .alreadyActive
  Tx.modify fun s => { s with
    candidatePool
    candidateInfo := s.candidateInfo.insert collator state }

def scheduleLeaveCandidates (origin : Origin R) (candidateCount : ℕ) : Update R PUnit :=
  Tx.transactional do
    let collator ← Tx.read fun _ => ensureSigned origin
    let state ← editCandidate collator fun s state => state.scheduleLeave R s.round.current
    ensure (fun s => candidateCount ≥ s.candidatePool.length)
      .tooLowCandidateCountToLeaveCandidates
    storeRemoved collator state

/-- Takes a delegation to a leaving candidate out of its delegator's state. -/
def returnStake (candidate : R.Account) (bond : Bond R.Account) : Update R PUnit := do
  let delegator ← getOr (fun s => s.delegatorState.get bond.owner) .invalidState
  let (remaining, delegator) ← delegator.rmDelegation candidate
  match remaining with
  | some remaining => do
    let delegator ← delegationRemoveRequestWithState candidate bond.owner delegator
    Tx.modify fun s =>
      if remaining = 0 then { s with
        delegatorState := s.delegatorState.remove bond.owner
        world := R.removeLock s.world .delegator bond.owner }
      else { s with delegatorState := s.delegatorState.insert bond.owner delegator }
  | none => Tx.modify fun s => { s with world := R.removeLock s.world .delegator bond.owner }

def returnStakes (candidate : R.Account) : List (Bond R.Account) → Update R PUnit
  | [] => pure ⟨⟩
  | bond :: bonds => do
    returnStake candidate bond
    returnStakes candidate bonds

def executeLeaveCandidates (origin : Origin R) (candidate : R.Account)
    (candidateDelegationCount : ℕ) : Update R PUnit := Tx.transactional do
  let _ ← Tx.read fun _ => ensureSigned origin
  let state ← getOr (fun s => s.candidateInfo.get candidate) .candidateDNE
  ensure (fun _ => state.delegationCount ≤ candidateDelegationCount)
    .tooLowCandidateDelegationCountToLeaveCandidates
  Tx.read fun s => .lift ((state.canLeave s.round.current).mapError .module)
  let top ← getOr (fun s => s.topDelegations.get candidate) .invalidState
  Tx.modify fun s => { s with topDelegations := s.topDelegations.remove candidate }
  returnStakes candidate top.delegations
  let bottom ← getOr (fun s => s.bottomDelegations.get candidate) .invalidState
  Tx.modify fun s => { s with bottomDelegations := s.bottomDelegations.remove candidate }
  returnStakes candidate bottom.delegations
  let totalBacking := satAdd (satAdd state.bond top.total) bottom.total
  Tx.modify fun s =>
    { s.setRequests candidate [] with
      world := R.removeLock s.world .collator candidate
      candidateInfo := s.candidateInfo.remove candidate
      total := s.total - totalBacking }

def cancelLeaveCandidates (origin : Origin R) (candidateCount : ℕ) : Update R PUnit :=
  Tx.transactional do
    let collator ← Tx.read fun _ => ensureSigned origin
    let state ← editCandidate collator fun _ state =>
      if state.isLeaving then .ok state.goOnline else .error .candidateNotLeaving
    ensure (fun s => s.candidatePool.length ≤ candidateCount)
      .tooLowCandidateCountWeightHintCancelLeaveCandidates
    storeInserted collator state

def goOffline (origin : Origin R) : Update R PUnit := Tx.transactional do
  let collator ← Tx.read fun _ => ensureSigned origin
  let state ← editCandidate collator fun _ state =>
    if state.isActive then .ok state.goOffline else .error .alreadyOffline
  storeRemoved collator state

def goOnline (origin : Origin R) : Update R PUnit := Tx.transactional do
  let collator ← Tx.read fun _ => ensureSigned origin
  let state ← editCandidate collator fun _ state =>
    if state.isActive then .error .alreadyActive
    else if state.isLeaving then .error .cannotGoOnlineIfLeaving
    else .ok state.goOnline
  storeInserted collator state

def candidateBondMore (origin : Origin R) (more : ℕ) : Update R PUnit := Tx.transactional do
  let collator ← Tx.read fun _ => ensureSigned origin
  let state ← getOr (fun s => s.candidateInfo.get collator) .candidateDNE
  let state ← state.bondMore collator more
  Tx.modify fun s => { s with candidateInfo := s.candidateInfo.insert collator state }
  if state.isActive then updateActive collator state.totalCounted

def scheduleCandidateBondLess (origin : Origin R) (less : ℕ) : Update R PUnit :=
  Tx.transactional do
    let collator ← Tx.read fun _ => ensureSigned origin
    let state ← editCandidate collator fun s state =>
      state.scheduleBondLess R s.round.current less
    Tx.modify fun s => { s with candidateInfo := s.candidateInfo.insert collator state }

def executeCandidateBondLess (origin : Origin R) (candidate : R.Account) : Update R PUnit :=
  Tx.transactional do
    let _ ← Tx.read fun _ => ensureSigned origin
    let state ← getOr (fun s => s.candidateInfo.get candidate) .candidateDNE
    let state ← state.executeBondLess candidate
    Tx.modify fun s => { s with candidateInfo := s.candidateInfo.insert candidate state }

def cancelCandidateBondLess (origin : Origin R) : Update R PUnit := Tx.transactional do
  let collator ← Tx.read fun _ => ensureSigned origin
  let state ← editCandidate collator fun _ state => state.cancelBondLess
  Tx.modify fun s => { s with candidateInfo := s.candidateInfo.insert collator state }

/-- The state of a delegator with a new delegation of `amount` to `candidate`. -/
def joinDelegation (s : State R) (delegator candidate : R.Account)
    (amount delegationCount : ℕ) : Except Error (Delegator R.Account) :=
  match s.delegatorState.get delegator with
  | some state =>
    if ¬ amount ≥ R.minDelegation then .error .delegationBelowMin
    else if ¬ delegationCount ≥ state.delegations.length then
      .error .tooLowDelegationCountToDelegate
    else if ¬ state.delegations.length < R.maxDelegationsPerDelegator then
      .error .exceedMaxDelegationsPerDelegator
    else (state.addDelegation ⟨candidate, amount⟩).elim (.error .alreadyDelegatedCandidate) .ok
  | none =>
    if ¬ amount ≥ R.minDelegatorStk then .error .delegatorBondBelowMin
    else if s.isCandidate delegator then .error .candidateExists
    else .ok (.new delegator candidate amount)

def delegate (origin : Origin R) (candidate : R.Account) (amount : ℕ)
    (candidateDelegationCount delegationCount : ℕ) : Update R PUnit := Tx.transactional do
  let delegator ← Tx.read fun _ => ensureSigned origin
  ensure (fun s => s.delegatorStakableFreeBalance delegator ≥ amount) .insufficientBalance
  let delegatorState ← Tx.read fun s => .lift <|
    (joinDelegation s delegator candidate amount delegationCount).mapError .module
  let state ← getOr (fun s => s.candidateInfo.get candidate) .candidateDNE
  ensure (fun _ => candidateDelegationCount ≥ state.delegationCount)
    .tooLowCandidateDelegationCountToDelegate
  let (state, lessTotalStaked) ← state.addDelegation candidate ⟨delegator, amount⟩
  delegatorState.adjustBondLock (.increase amount)
  let netTotalIncrease := amount - lessTotalStaked.getD 0
  Tx.modify fun s => { s with
    total := satAdd s.total netTotalIncrease
    candidateInfo := s.candidateInfo.insert candidate state
    delegatorState := s.delegatorState.insert delegator delegatorState }

def scheduleLeaveDelegators (origin : Origin R) : Update R PUnit := Tx.transactional do
  let delegator ← Tx.read fun _ => ensureSigned origin
  delegatorScheduleRevokeAll delegator

def executeLeaveDelegators (origin : Origin R) (delegator : R.Account) (delegationCount : ℕ) :
    Update R PUnit := Tx.transactional do
  let _ ← Tx.read fun _ => ensureSigned origin
  delegatorExecuteScheduledRevokeAll delegator delegationCount

def cancelLeaveDelegators (origin : Origin R) : Update R PUnit := Tx.transactional do
  let delegator ← Tx.read fun _ => ensureSigned origin
  delegatorCancelScheduledRevokeAll delegator

def scheduleRevokeDelegation (origin : Origin R) (collator : R.Account) : Update R PUnit :=
  Tx.transactional do
    let delegator ← Tx.read fun _ => ensureSigned origin
    delegationScheduleRevoke collator delegator

def delegatorBondMore (origin : Origin R) (candidate : R.Account) (more : ℕ) : Update R PUnit :=
  Tx.transactional do
    let delegator ← Tx.read fun _ => ensureSigned origin
    ensure (fun s => !delegationRequestRevokeExists s candidate delegator)
      .pendingDelegationRevoke
    let state ← getOr (fun s => s.delegatorState.get delegator) .delegatorDNE
    state.increaseDelegation candidate more

def scheduleDelegatorBondLess (origin : Origin R) (candidate : R.Account) (less : ℕ) :
    Update R PUnit := Tx.transactional do
  let delegator ← Tx.read fun _ => ensureSigned origin
  delegationScheduleBondDecrease candidate delegator less

def executeDelegationRequest (origin : Origin R) (delegator candidate : R.Account) :
    Update R PUnit := Tx.transactional do
  let _ ← Tx.read fun _ => ensureSigned origin
  delegationExecuteScheduledRequest candidate delegator

def cancelDelegationRequest (origin : Origin R) (candidate : R.Account) : Update R PUnit :=
  Tx.transactional do
    let delegator ← Tx.read fun _ => ensureSigned origin
    delegationCancelRequest candidate delegator

end Calls

/-- A call with its arguments. -/
inductive Call (R : Runtime) where
  | setTotalSelected (new : ℕ)
  | setBlocksPerRound (new : ℕ)
  | joinCandidates (bond candidateCount : ℕ)
  | scheduleLeaveCandidates (candidateCount : ℕ)
  | executeLeaveCandidates (candidate : R.Account) (candidateDelegationCount : ℕ)
  | cancelLeaveCandidates (candidateCount : ℕ)
  | goOffline
  | goOnline
  | candidateBondMore (more : ℕ)
  | scheduleCandidateBondLess (less : ℕ)
  | executeCandidateBondLess (candidate : R.Account)
  | cancelCandidateBondLess
  | delegate (candidate : R.Account) (amount candidateDelegationCount delegationCount : ℕ)
  | scheduleLeaveDelegators
  | executeLeaveDelegators (delegator : R.Account) (delegationCount : ℕ)
  | cancelLeaveDelegators
  | scheduleRevokeDelegation (collator : R.Account)
  | delegatorBondMore (candidate : R.Account) (more : ℕ)
  | scheduleDelegatorBondLess (candidate : R.Account) (less : ℕ)
  | executeDelegationRequest (delegator candidate : R.Account)
  | cancelDelegationRequest (candidate : R.Account)

def Call.dispatch (origin : Origin R) : Call R → Update R PUnit
  | .setTotalSelected new => Staking.setTotalSelected origin new
  | .setBlocksPerRound new => Staking.setBlocksPerRound origin new
  | .joinCandidates bond candidateCount => Staking.joinCandidates origin bond candidateCount
  | .scheduleLeaveCandidates candidateCount =>
    Staking.scheduleLeaveCandidates origin candidateCount
  | .executeLeaveCandidates candidate candidateDelegationCount =>
    Staking.executeLeaveCandidates origin candidate candidateDelegationCount
  | .cancelLeaveCandidates candidateCount => Staking.cancelLeaveCandidates origin candidateCount
  | .goOffline => Staking.goOffline origin
  | .goOnline => Staking.goOnline origin
  | .candidateBondMore more => Staking.candidateBondMore origin more
  | .scheduleCandidateBondLess less => Staking.scheduleCandidateBondLess origin less
  | .executeCandidateBondLess candidate => Staking.executeCandidateBondLess origin candidate
  | .cancelCandidateBondLess => Staking.cancelCandidateBondLess origin
  | .delegate candidate amount candidateDelegationCount delegationCount =>
    Staking.delegate origin candidate amount candidateDelegationCount delegationCount
  | .scheduleLeaveDelegators => Staking.scheduleLeaveDelegators origin
  | .executeLeaveDelegators delegator delegationCount =>
    Staking.executeLeaveDelegators origin delegator delegationCount
  | .cancelLeaveDelegators => Staking.cancelLeaveDelegators origin
  | .scheduleRevokeDelegation collator => Staking.scheduleRevokeDelegation origin collator
  | .delegatorBondMore candidate more => Staking.delegatorBondMore origin candidate more
  | .scheduleDelegatorBondLess candidate less =>
    Staking.scheduleDelegatorBondLess origin candidate less
  | .executeDelegationRequest delegator candidate =>
    Staking.executeDelegationRequest origin delegator candidate
  | .cancelDelegationRequest candidate => Staking.cancelDelegationRequest origin candidate

/-- `on_initialize`, as far as the round goes. -/
def State.startBlock (s : State R) (now : ℕ) : State R :=
  { s with round := if s.round.shouldUpdate now then s.round.update now else s.round }

/-- A move: a call, the start of a block, or whatever the rest of the runtime does to balances. -/
inductive Move (R : Runtime) where
  | call (origin : Origin R) (call : Call R)
  | block (now : ℕ)
  | other (world : R.World)

def Move.next (s : State R) : Move R → State R
  | .call origin c => (c.dispatch origin s).2
  | .block now => s.startBlock now
  | .other world => { s with world }

end Staking
end ZkNft
