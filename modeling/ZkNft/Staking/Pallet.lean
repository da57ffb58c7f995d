import ZkNft.Lib.Origin
import ZkNft.Lib.StorageMap
import ZkNft.Staking.Types

/-! The storage of parachain staking and the delegation lists of its candidates, as far as bonds and
delegations go: no rewards, no selection of collators, no events. -/

namespace ZkNft
namespace Staking

inductive LockId where
  | collator
  | delegator
  deriving DecidableEq

/-- The runtime of parachain staking: the currency, the collator selection pallet and the constants
of the configuration. -/
structure Runtime where
  Account : Type
  [accountOrder : LinearOrder Account]
  World : Type
  freeBalance : World → Account → ℕ
  /-- What is locked on an account under an id. -/
  lock : World → LockId → Account → Option ℕ
  setLock : World → LockId → Account → ℕ → World
  removeLock : World → LockId → Account → World
  /-- The candidates of the collator selection pallet. -/
  whitelist : World → List Account
  /-- `leave_intent` of the collator selection pallet. -/
  leaveIntent : World → Account → Option World
  minBlocksPerRound : ℕ
  defaultBlocksPerRound : ℕ
  leaveCandidatesDelay : ℕ
  candidateBondLessDelay : ℕ
  leaveDelegatorsDelay : ℕ
  revokeDelegationDelay : ℕ
  minSelectedCandidates : ℕ
  maxTopDelegationsPerCandidate : ℕ
  maxBottomDelegationsPerCandidate : ℕ
  maxDelegationsPerDelegator : ℕ
  minCandidateStk : ℕ
  minWhitelistCandidateStk : ℕ
  minDelegation : ℕ
  minDelegatorStk : ℕ

instance (R : Runtime) : LinearOrder R.Account := R.accountOrder

instance (R : Runtime) (account : R.Account) (accounts : List R.Account) :
    Decidable (account ∈ accounts) := inferInstance

abbrev Origin (R : Runtime) := RawOrigin R.Account

inductive Error where
  | delegatorDNE
  | candidateDNE
  | delegationDNE
  | delegatorExists
  | candidateExists
  | candidateBondBelowMin
  | insufficientBalance
  | delegatorBondBelowMin
  | delegationBelowMin
  | alreadyOffline
  | alreadyActive
  | delegatorAlreadyLeaving
  | delegatorNotLeaving
  | delegatorCannotLeaveYet
  | candidateAlreadyLeaving
  | candidateNotLeaving
  | candidateCannotLeaveYet
  | cannotGoOnlineIfLeaving
  | exceedMaxDelegationsPerDelegator
  | alreadyDelegatedCandidate
  | invalidSchedule
  | cannotSetBelowMin
  | roundLengthMustBeAtLeastTotalSelectedCollators
  | noWritingSameValue
  | tooLowCandidateCountWeightHintJoinCandidates
  | tooLowCandidateCountWeightHintCancelLeaveCandidates
  | tooLowCandidateCountToLeaveCandidates
  | tooLowDelegationCountToDelegate
  | tooLowCandidateDelegationCountToDelegate
  | tooLowCandidateDelegationCountToLeaveCandidates
  | tooLowDelegationCountToLeaveDelegators
  | pendingCandidateRequestsDNE
  | pendingCandidateRequestAlreadyExists
  | pendingCandidateRequestNotDueYet
  | pendingDelegationRequestDNE
  | pendingDelegationRequestAlreadyExists
  | pendingDelegationRequestNotDueYet
  | cannotDelegateLessThanOrEqualToLowestBottomWhenFull
  | pendingDelegationRevoke
  | invalidState
  deriving DecidableEq

inductive DispatchError where
  | badOrigin
  | module (e : Error)
  | other (msg : String)
  deriving DecidableEq

/-- The storage items that the calls read and write. -/
structure State (R : Runtime) where
  totalSelected : ℕ
  round : RoundInfo
  delegatorState : StorageMap R.Account (Delegator R.Account)
  candidateInfo : StorageMap R.Account CandidateMetadata
  delegationScheduledRequests : R.Account → List (ScheduledRequest R.Account)
  topDelegations : StorageMap R.Account (Delegations R.Account)
  bottomDelegations : StorageMap R.Account (Delegations R.Account)
  /-- Total capital locked by the pallet. -/
  total : ℕ
  /-- The active candidates with their counted stake, ordered by owner. -/
  candidatePool : List (Bond R.Account)
  world : R.World

variable {R : Runtime}

/-- The storage before the candidates and delegations of the genesis block join. -/
def State.genesis (world : R.World) : State R :=
  { totalSelected := R.minSelectedCandidates
    round := ⟨1, 0, R.defaultBlocksPerRound⟩
    delegatorState := .empty
    candidateInfo := .empty
    delegationScheduledRequests := fun _ => []
    topDelegations := .empty
    bottomDelegations := .empty
    total := 0
    candidatePool := []
    world }

abbrev Update (R : Runtime) (α : Type) := Tx (State R) DispatchError α

namespace State

def setRequests (s : State R) (collator : R.Account)
    (requests : List (ScheduledRequest R.Account)) : State R :=
  { s with delegationScheduledRequests := fun c =>
      if c = collator then requests else s.delegationScheduledRequests c }

def isDelegator (s : State R) (acc : R.Account) : Bool := s.delegatorState.containsKey acc

def isCandidate (s : State R) (acc : R.Account) : Bool := s.candidateInfo.containsKey acc

/-- An account's free balance which is not locked in delegation staking. -/
def delegatorStakableFreeBalance (s : State R) (acc : R.Account) : ℕ :=
  R.freeBalance s.world acc - (s.delegatorState.get acc).elim 0 Delegator.total

/-- An account's free balance which is not locked in collator staking. -/
def collatorStakableFreeBalance (s : State R) (acc : R.Account) : ℕ :=
  R.freeBalance s.world acc - (s.candidateInfo.get acc).elim 0 CandidateMetadata.bond

end State

abbrev ensureSigned (origin : Origin R) : Exec DispatchError R.Account :=
  origin.ensureSigned .badOrigin

abbrev ensureRoot (origin : Origin R) : Exec DispatchError PUnit :=
  origin.ensureRoot .badOrigin

def ensure (p : State R → Bool) (e : Error) : Update R PUnit :=
  Tx.read fun s => .ensure (p s = true) (.module e)

/-- What storage holds, or an error. -/
def getOr {α : Type} (f : State R → Option α) (e : Error) : Update R α :=
  Tx.read fun s => .okOr (f s) (.module e)

/-- What storage is expected to hold. -/
def getExpect {α : Type} (f : State R → Option α) (msg : String) : Update R α :=
  Tx.read fun s => .expect msg (f s)

def updateActive (candidate : R.Account) (total : ℕ) : Update R PUnit :=
  Tx.modify fun s =>
    let candidates := (OrderedSet.remove s.candidatePool candidate).getD s.candidatePool
    { s with candidatePool := (OrderedSet.insert candidates ⟨candidate, total⟩).getD candidates }

namespace Delegations
variable (R)

def topCapacity (self : Delegations R.Account) : CapacityStatus :=
  self.capacity R.maxTopDelegationsPerCandidate

def bottomCapacity (self : Delegations R.Account) : CapacityStatus :=
  self.capacity R.maxBottomDelegationsPerCandidate

end Delegations

namespace Delegator
variable (self : Delegator R.Account)

/-- Lock the total, where an increase must be covered by the free balance. -/
def adjustBondLock (additionalRequiredBalance : BondAdjust) : Update R PUnit := do
  match additionalRequiredBalance with
  | .increase amount => do
    ensure (fun s => s.delegatorStakableFreeBalance self.id ≥ amount) .insufficientBalance
    Tx.read fun _ =>
      .ensure (amount ≤ self.total) (.other "Invalid additional_required_balance")
  | .decrease => pure ⟨⟩
  Tx.modify fun s => { s with
    world := if self.total = 0 then R.removeLock s.world .delegator self.id
      else R.setLock s.world .delegator self.id self.total }

def totalSub (amount : ℕ) : Update R (Delegator R.Account) := do
  let self := { self with total := self.total - amount }
  self.adjustBondLock .decrease
  return self

/-- `rm_delegation`: what is left after the delegation to `collator` is taken out, if it is there,
and the new state. -/
def rmDelegation (collator : R.Account) : Update R (Option ℕ × Delegator R.Account) :=
  match ((self.delegations.filter fun x => x.owner = collator).getLast?).map Bond.amount with
  | some balance => do
    let rest := self.delegations.filter fun x => x.owner ≠ collator
    let self ← Tx.expectOk "Decreasing lock cannot fail, qed" <|
      { self with delegations := OrderedSet.ofList rest }.totalSub balance
    return (some self.total, self)
  | none => return (none, self)

end Delegator

/-- Takes the request of a delegator out, if there is one. The delegator's state is left to the
caller to store. -/
def delegationRemoveRequestWithState (collator delegator : R.Account)
    (state : Delegator R.Account) : Update R (Delegator R.Account) := do
  let requests ← Tx.read fun s => .ok (s.delegationScheduledRequests collator)
  match takeRequest delegator requests with
  | some (request, rest) => do
    Tx.modify fun s => s.setRequests collator rest
    return { state with lessTotal := state.lessTotal - request.action.amount }
  | none => return state

namespace CandidateMetadata
variable (self : CandidateMetadata)

/-- `schedule_leave`, with the round in which the candidate can leave. -/
def scheduleLeave (R : Runtime) (now : ℕ) : Except Error CandidateMetadata :=
  if self.isLeaving then .error .candidateAlreadyLeaving
  else .ok { self with status := .leaving (addRounds now R.leaveCandidatesDelay) }

def canLeave (now : ℕ) : Except Error PUnit :=
  match self.status with
  | .leaving when => if now ≥ when then .ok ⟨⟩ else .error .candidateCannotLeaveYet
  | .active => .error .candidateNotLeaving
  | .idle => .error .candidateNotLeaving

def goOffline : CandidateMetadata := { self with status := .idle }

def goOnline : CandidateMetadata := { self with status := .active }

def bondMore (who : R.Account) (more : ℕ) : Update R CandidateMetadata := do
  ensure (fun s => s.collatorStakableFreeBalance who ≥ more) .insufficientBalance
  let bond := satAdd self.bond more
  Tx.modify fun s => { s with
    total := satAdd s.total more
    world := R.setLock s.world .collator who bond }
  return { self with bond, totalCounted := satAdd self.totalCounted more }

def scheduleBondLess (R : Runtime) (now less : ℕ) : Except Error CandidateMetadata :=
  if self.request.isSome then .error .pendingCandidateRequestAlreadyExists
  else if ¬ self.bond > less then .error .candidateBondBelowMin
  else if ¬ self.bond - less ≥ R.minCandidateStk then .error .candidateBondBelowMin
  else .ok { self with request := some ⟨less, addRounds now R.candidateBondLessDelay⟩ }

def executeBondLess (who : R.Account) : Update R CandidateMetadata := do
  let request ← getOr (fun _ => self.request) .pendingCandidateRequestsDNE
  ensure (fun s => request.whenExecutable ≤ s.round.current) .pendingCandidateRequestNotDueYet
  let self := { self with
    bond := self.bond - request.amount
    totalCounted := self.totalCounted - request.amount
    request := none }
  Tx.modify fun s => { s with
    total := s.total - request.amount
    world := R.setLock s.world .collator who self.bond }
  if self.isActive then updateActive who self.totalCounted
  return self

def cancelBondLess : Except Error CandidateMetadata :=
  if self.request.isSome then .ok { self with request := none }
  else .error .pendingCandidateRequestsDNE

def resetTopData (candidate : R.Account) (top : Delegations R.Account) :
    Update R CandidateMetadata := do
  have new := { self with
    lowestTopDelegationAmount := top.lowestDelegationAmount
    topCapacity := top.topCapacity R
    totalCounted := satAdd self.bond top.total }
  if self.totalCounted ≠ new.totalCounted ∧ new.isActive = true then
    updateActive candidate new.totalCounted
  return new

def resetBottomData (R : Runtime) (bottom : Delegations R.Account) : CandidateMetadata :=
  { self with
    lowestBottomDelegationAmount := bottom.lowestDelegationAmount
    highestBottomDelegationAmount := bottom.highestDelegationAmount
    bottomCapacity := bottom.bottomCapacity R }

/-- Takes a delegation to `candidate` that left the bottom list out of its delegator's state. -/
def kick (candidate : R.Account) (kicked : Bond R.Account) : Update R PUnit := do
  let state ← getExpect (fun s => s.delegatorState.get kicked.owner)
    "Delegation existence => DelegatorState existence"
  let leaving := decide (state.delegations.length = 1)
  let (_, state) ← state.rmDelegation candidate
  let state ← delegationRemoveRequestWithState candidate kicked.owner state
  Tx.modify fun s => { s with
    delegatorState := if leaving then s.delegatorState.remove kicked.owner
      else s.delegatorState.insert kicked.owner state }

/-- The bottom list with a place free, and whether the count of delegations goes up. -/
def makeRoom (bumpedFromTop : Bool) (candidate : R.Account) (bottom : Delegations R.Account) :
    Update R (Delegations R.Account × Bool) :=
  if bottom.delegations.length = R.maxBottomDelegationsPerCandidate then do
    let kicked ← getExpect (fun _ => bottom.delegations.getLast?)
      "if at full capacity (>0), then >0 bottom delegations exist; qed"
    kick candidate kicked
    return (⟨bottom.delegations.dropLast, bottom.total - kicked.amount⟩, false)
  else return (bottom, !bumpedFromTop)

def addBottomDelegation (bumpedFromTop : Bool) (candidate : R.Account)
    (delegation : Bond R.Account) : Update R CandidateMetadata := do
  let bottom ← getExpect (fun s => s.bottomDelegations.get candidate)
    "CandidateInfo existence => BottomDelegations existence"
  let (bottom, increase) ← makeRoom bumpedFromTop candidate bottom
  let self := if increase then { self with delegationCount := self.delegationCount + 1 } else self
  let bottom := bottom.insertSortedGreatestToLeast delegation
  Tx.modify fun s => { s with bottomDelegations := s.bottomDelegations.insert candidate bottom }
  return self.resetBottomData R bottom

/-- The top list with a place free, after its lowest delegation is bumped to the bottom, and the
amount that is kicked from there. -/
def bumpLowestTop (candidate : R.Account) (top : Delegations R.Account) :
    Update R (CandidateMetadata × Delegations R.Account × Option ℕ) :=
  if top.delegations.length = R.maxTopDelegationsPerCandidate then do
    let bumped ← getExpect (fun _ => top.delegations.getLast?) ""
    let lessTotalStaked :=
      if self.bottomCapacity = .full then some self.lowestBottomDelegationAmount else none
    let self ← self.addBottomDelegation true candidate bumped
    return (self, ⟨top.delegations.dropLast, top.total - bumped.amount⟩, lessTotalStaked)
  else return (self, top, none)

/-- The new metadata, and what is taken off the total stake for a kicked delegation. -/
def addTopDelegation (candidate : R.Account) (delegation : Bond R.Account) :
    Update R (CandidateMetadata × Option ℕ) := do
  let top ← getExpect (fun s => s.topDelegations.get candidate)
    "CandidateInfo existence => TopDelegations existence"
  let (self, top, lessTotalStaked) ← self.bumpLowestTop candidate top
  let top := top.insertSortedGreatestToLeast delegation
  let self ← self.resetTopData candidate top
  let self := if lessTotalStaked = none then
    { self with delegationCount := self.delegationCount + 1 } else self
  Tx.modify fun s => { s with topDelegations := s.topDelegations.insert candidate top }
  return (self, lessTotalStaked)

def addDelegation (candidate : R.Account) (delegation : Bond R.Account) :
    Update R (CandidateMetadata × Option ℕ) :=
  if self.topCapacity = .full then
    if self.lowestTopDelegationAmount < delegation.amount then
      self.addTopDelegation candidate delegation
    else do
      if self.bottomCapacity = .full then
        ensure (fun _ => delegation.amount > self.lowestBottomDelegationAmount)
          .cannotDelegateLessThanOrEqualToLowestBottomWhenFull
      let lessTotalStaked :=
        if self.bottomCapacity = .full then some self.lowestBottomDelegationAmount else none
      let self ← self.addBottomDelegation false candidate delegation
      return (self, lessTotalStaked)
  else do
    let (self, _) ← self.addTopDelegation candidate delegation
    return (self, none)

/-- The amount of the last entry of `owner`, if there is one. -/
def actualAmount (l : List (Bond R.Account)) (owner : R.Account) : Option ℕ :=
  ((l.filter fun d => d.owner = owner).getLast?).map Bond.amount

/-- The highest bottom delegation goes to the top list. -/
def bumpHighestBottom (candidate : R.Account) (top : Delegations R.Account) :
    Update R (CandidateMetadata × Delegations R.Account) :=
  if self.bottomCapacity ≠ .empty then do
    let bottom ← getExpect (fun s => s.bottomDelegations.get candidate)
      "bottom is nonempty as just checked"
    let highest ← Tx.read fun _ => bottom.delegations.head?.elim (.trap .index) .ok
    let bottom := ⟨bottom.delegations.tail, bottom.total - highest.amount⟩
    Tx.modify fun s => { s with bottomDelegations := s.bottomDelegations.insert candidate bottom }
    return (self.resetBottomData R bottom, top.insertSortedGreatestToLeast highest)
  else return (self, top)

def rmTopDelegation (candidate delegator : R.Account) : Update R CandidateMetadata := do
  let top ← getExpect (fun s => s.topDelegations.get candidate)
    "CandidateInfo exists => TopDelegations exists"
  let amount ← getOr (fun _ => actualAmount top.delegations delegator) .delegationDNE
  let top := ⟨top.delegations.filter fun d => d.owner ≠ delegator, top.total - amount⟩
  let (self, top) ← self.bumpHighestBottom candidate top
  let self ← self.resetTopData candidate top
  Tx.modify fun s => { s with topDelegations := s.topDelegations.insert candidate top }
  return { self with delegationCount := self.delegationCount - 1 }

def rmBottomDelegation (candidate delegator : R.Account) : Update R CandidateMetadata := do
  let bottom ← getExpect (fun s => s.bottomDelegations.get candidate)
    "CandidateInfo exists => BottomDelegations exists"
  let amount ← getOr (fun _ => actualAmount bottom.delegations delegator) .delegationDNE
  let bottom := ⟨bottom.delegations.filter fun d => d.owner ≠ delegator, bottom.total - amount⟩
  Tx.modify fun s => { s with bottomDelegations := s.bottomDelegations.insert candidate bottom }
  let self := self.resetBottomData R bottom
  return { self with delegationCount := self.delegationCount - 1 }

/-- The error is the one of a delegation that is not in the list. -/
def isDelegationDNE (e : DispatchError) : Bool := decide (e = .module .delegationDNE)

def rmDelegationIfExists (candidate delegator : R.Account) (amount : ℕ) :
    Update R CandidateMetadata :=
  let amountGeqLowestTop := amount ≥ self.lowestTopDelegationAmount
  let topIsNotFull := self.topCapacity ≠ .full
  let lowestTopEqHighestBottom :=
    self.lowestTopDelegationAmount = self.highestBottomDelegationAmount
  if topIsNotFull ∨ amountGeqLowestTop ∧ ¬ lowestTopEqHighestBottom then
    self.rmTopDelegation candidate delegator
  else if amountGeqLowestTop ∧ lowestTopEqHighestBottom then
    Tx.recover isDelegationDNE (self.rmTopDelegation candidate delegator)
      (self.rmBottomDelegation candidate delegator)
  else self.rmBottomDelegation candidate delegator

/-- The entries of `owner` with `f` applied to their amounts. -/
def adjust (f : ℕ → ℕ) (owner : R.Account) (l : List (Bond R.Account)) : List (Bond R.Account) :=
  l.map fun d => if d.owner = owner then ⟨d.owner, f d.amount⟩ else d

def hasOwner (l : List (Bond R.Account)) (owner : R.Account) : Bool :=
  l.any fun d => d.owner = owner

def increaseTopDelegation (candidate delegator : R.Account) (more : ℕ) :
    Update R CandidateMetadata := do
  let top ← getExpect (fun s => s.topDelegations.get candidate)
    "CandidateInfo exists => TopDelegations exists"
  ensure (fun _ => hasOwner top.delegations delegator) .delegationDNE
  let top := (⟨adjust (satAdd · more) delegator top.delegations, satAdd top.total more⟩ :
    Delegations R.Account).sortGreatestToLeast
  let self ← self.resetTopData candidate top
  Tx.modify fun s => { s with topDelegations := s.topDelegations.insert candidate top }
  return self

/-- The lowest top delegation goes to the bottom list if the top list is full. -/
def swapLowestTop (top bottom : Delegations R.Account) :
    Update R (Delegations R.Account × Delegations R.Account) :=
  if top.topCapacity R = .full then do
    let lowest ← getExpect (fun _ => top.delegations.getLast?)
      "Top capacity full => Exists at least 1 top delegation"
    return (⟨top.delegations.dropLast, top.total - lowest.amount⟩,
      bottom.insertSortedGreatestToLeast lowest)
  else return (top, bottom)

/-- A bottom delegation that has grown above the lowest top one goes to the top list. -/
def raiseToTop (candidate delegator : R.Account) (bond more : ℕ) (bottom : Delegations R.Account) :
    Update R (CandidateMetadata × Delegations R.Account) := do
  let amount ← getOr (fun _ => actualAmount bottom.delegations delegator) .delegationDNE
  let bottom := ⟨bottom.delegations.filter fun d => d.owner ≠ delegator, bottom.total - bond⟩
  let top ← getExpect (fun s => s.topDelegations.get candidate)
    "CandidateInfo existence => TopDelegations existence"
  let (top, bottom) ← swapLowestTop top bottom
  let top := top.insertSortedGreatestToLeast ⟨delegator, satAdd amount more⟩
  let self ← self.resetTopData candidate top
  Tx.modify fun s => { s with topDelegations := s.topDelegations.insert candidate top }
  return (self, bottom)

def raiseInBottom (delegator : R.Account) (more : ℕ) (bottom : Delegations R.Account) :
    Update R (Delegations R.Account) := do
  ensure (fun _ => hasOwner bottom.delegations delegator) .delegationDNE
  return (⟨adjust (satAdd · more) delegator bottom.delegations, satAdd bottom.total more⟩ :
    Delegations R.Account).sortGreatestToLeast

def increaseBottomDelegation (candidate delegator : R.Account) (bond more : ℕ) :
    Update R CandidateMetadata := do
  let bottom ← getOr (fun s => s.bottomDelegations.get candidate) .candidateDNE
  let (self, bottom) ←
    if satAdd bond more > self.lowestTopDelegationAmount then
      self.raiseToTop candidate delegator bond more bottom
    else do
      let bottom ← raiseInBottom delegator more bottom
      pure (self, bottom)
  Tx.modify fun s => { s with bottomDelegations := s.bottomDelegations.insert candidate bottom }
  return self.resetBottomData R bottom

def increaseDelegation (candidate delegator : R.Account) (bond more : ℕ) :
    Update R CandidateMetadata :=
  let lowestTopEqHighestBottom :=
    self.lowestTopDelegationAmount = self.highestBottomDelegationAmount
  let bondGeqLowestTop := bond ≥ self.lowestTopDelegationAmount
  if bondGeqLowestTop ∧ ¬ lowestTopEqHighestBottom then
    self.increaseTopDelegation candidate delegator more
  else if bondGeqLowestTop ∧ lowestTopEqHighestBottom then
    Tx.recover isDelegationDNE (self.increaseTopDelegation candidate delegator more)
      (self.increaseBottomDelegation candidate delegator bond more)
  else self.increaseBottomDelegation candidate delegator bond more

/-- A top delegation that has shrunk below the highest bottom one changes places with it. -/
def lowerToBottom (candidate delegator : R.Account) (less : ℕ) (top : Delegations R.Account) :
    Update R (CandidateMetadata × Delegations R.Account) := do
  let amount ← getOr (fun _ => actualAmount top.delegations delegator) .delegationDNE
  let top : Delegations R.Account :=
    ⟨top.delegations.filter fun d => d.owner ≠ delegator, top.total - amount⟩
  let bottom ← getExpect (fun s => s.bottomDelegations.get candidate)
    "CandidateInfo existence => BottomDelegations existence"
  let highest ← Tx.read fun _ => bottom.delegations.head?.elim (.trap .index) .ok
  let bottom := (⟨bottom.delegations.tail, bottom.total - highest.amount⟩ :
    Delegations R.Account).insertSortedGreatestToLeast ⟨delegator, amount - less⟩
  Tx.modify fun s => { s with bottomDelegations := s.bottomDelegations.insert candidate bottom }
  return (self.resetBottomData R bottom, top.insertSortedGreatestToLeast highest)

def lowerInTop (delegator : R.Account) (less : ℕ) (top : Delegations R.Account) :
    Update R (Delegations R.Account) := do
  ensure (fun _ => hasOwner top.delegations delegator) .delegationDNE
  return (⟨adjust (· - less) delegator top.delegations, top.total - less⟩ :
    Delegations R.Account).sortGreatestToLeast

def decreaseTopDelegation (candidate delegator : R.Account) (bond less : ℕ) :
    Update R CandidateMetadata := do
  let top ← getOr (fun s => s.topDelegations.get candidate) .candidateDNE
  let (self, top) ←
    if bond - less < self.highestBottomDelegationAmount ∧ self.topCapacity = .full ∧
        self.bottomCapacity ≠ .empty then
      self.lowerToBottom candidate delegator less top
    else do
      let top ← lowerInTop delegator less top
      pure (self, top)
  let self ← self.resetTopData candidate top
  Tx.modify fun s => { s with topDelegations := s.topDelegations.insert candidate top }
  return self

/-- The total of the list stays as it is. -/
def decreaseBottomDelegation (candidate delegator : R.Account) (less : ℕ) :
    Update R CandidateMetadata := do
  let bottom ← getExpect (fun s => s.bottomDelegations.get candidate)
    "CandidateInfo exists => BottomDelegations exists"
  ensure (fun _ => hasOwner bottom.delegations delegator) .delegationDNE
  let bottom := (⟨adjust (· - less) delegator bottom.delegations, bottom.total⟩ :
    Delegations R.Account).sortGreatestToLeast
  Tx.modify fun s => { s with bottomDelegations := s.bottomDelegations.insert candidate bottom }
  return self.resetBottomData R bottom

def decreaseDelegation (candidate delegator : R.Account) (bond less : ℕ) :
    Update R CandidateMetadata :=
  let lowestTopEqHighestBottom :=
    self.lowestTopDelegationAmount = self.highestBottomDelegationAmount
  let bondGeqLowestTop := bond ≥ self.lowestTopDelegationAmount
  if bondGeqLowestTop ∧ ¬ lowestTopEqHighestBottom then
    self.decreaseTopDelegation candidate delegator bond less
  else if bondGeqLowestTop ∧ lowestTopEqHighestBottom then
    Tx.recover isDelegationDNE (self.decreaseTopDelegation candidate delegator bond less)
      (self.decreaseBottomDelegation candidate delegator less)
  else self.decreaseBottomDelegation candidate delegator less

end CandidateMetadata
end Staking
end ZkNft
