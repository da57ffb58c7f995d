import ZkNft.Lib.Run
import ZkNft.Staking.Rewards

/-! The blocks of a chain with parachain staking: the genesis, the hooks of a block, and the calls
between them. -/

namespace ZkNft
namespace Staking

variable {E : Economy}

abbrev Hook (E : Economy) (α : Type) := Tx (Storage E) DispatchError α

section Governance

def ensureMonetaryGovernance (origin : Origin E.toRuntime) : Exec DispatchError PUnit :=
  if E.isMonetaryGovernance origin then .ok ⟨⟩ else .err .badOrigin

def ensureWith (p : Storage E → Bool) (e : Error) : Hook E PUnit :=
  Tx.read fun s => .ensure (p s = true) (.module e)

def setStakingExpectations (origin : Origin E.toRuntime) (expectations : Range ℕ) :
    Hook E PUnit := do
  Tx.read fun _ => ensureMonetaryGovernance origin
  ensureWith (fun _ => expectations.isValid fun a b => a ≤ b) .invalidSchedule
  ensureWith (fun s => s.inflationConfig.expect ≠ expectations) .noWritingSameValue
  Tx.modify fun s =>
    { s with inflationConfig := { s.inflationConfig with expect := expectations } }

def setInflation (origin : Origin E.toRuntime) (schedule : Range Perbill) : Hook E PUnit := do
  Tx.read fun _ => ensureMonetaryGovernance origin
  ensureWith (fun _ => schedule.isValid fun a b => a.parts ≤ b.parts) .invalidSchedule
  ensureWith (fun s => s.inflationConfig.annual ≠ schedule) .noWritingSameValue
  let inflationConfig ← Tx.read fun s =>
    { s.inflationConfig with annual := schedule }.setRoundFromAnnual s schedule
  Tx.modify fun s => { s with inflationConfig }

def setParachainBondAccount (origin : Origin E.toRuntime) (new : E.Account) : Hook E PUnit := do
  Tx.read fun _ => ensureMonetaryGovernance origin
  ensureWith (fun s => s.parachainBondInfo.account ≠ new) .noWritingSameValue
  Tx.modify fun s =>
    { s with parachainBondInfo := { s.parachainBondInfo with account := new } }

def setParachainBondReservePercent (origin : Origin E.toRuntime) (new : Percent) :
    Hook E PUnit := do
  Tx.read fun _ => ensureMonetaryGovernance origin
  ensureWith (fun s => s.parachainBondInfo.percent ≠ new) .noWritingSameValue
  Tx.modify fun s =>
    { s with parachainBondInfo := { s.parachainBondInfo with percent := new } }

def setCollatorCommission (origin : Origin E.toRuntime) (new : Perbill) : Hook E PUnit := do
  Tx.read fun _ => ensureRoot origin
  ensureWith (fun s => s.collatorCommission ≠ new) .noWritingSameValue
  Tx.modify fun s => { s with collatorCommission := new }

end Governance

/-- The calls that set a parameter of the payouts. -/
inductive Measure (E : Economy) where
  | setStakingExpectations (expectations : Range ℕ)
  | setInflation (schedule : Range Perbill)
  | setParachainBondAccount (new : E.Account)
  | setParachainBondReservePercent (new : Percent)
  | setCollatorCommission (new : Perbill)

def Measure.dispatch (origin : Origin E.toRuntime) : Measure E → Hook E PUnit
  | .setStakingExpectations expectations => Staking.setStakingExpectations origin expectations
  | .setInflation schedule => Staking.setInflation origin schedule
  | .setParachainBondAccount new => Staking.setParachainBondAccount origin new
  | .setParachainBondReservePercent new => Staking.setParachainBondReservePercent origin new
  | .setCollatorCommission new => Staking.setCollatorCommission origin new

/-- A run over the part of the storage that has the stakes. -/
def onStakes {α : Type} (x : Update E.toRuntime α) : Hook E α :=
  Tx.zoom Storage.toState (fun s stakes => { s with toState := stakes }) id x

/-- A call on the whole storage: a new length of the rounds changes the inflation of a round. -/
def dispatchCall (origin : Origin E.toRuntime) : Call E.toRuntime → Hook E PUnit
  | .setBlocksPerRound new => Tx.transactional do
    -- the rates are computed before the length is written
    onStakes (Staking.setBlocksPerRound origin new)
    let inflationConfig ← Tx.read fun s => s.inflationConfig.resetRound E new
    Tx.modify fun s => { s with inflationConfig }
  | call => onStakes (call.dispatch origin)

section Genesis

structure GenesisConfig (E : Economy) where
  candidates : List (E.Account × ℕ)
  delegations : List (E.Account × E.Account × ℕ)
  inflationConfig : InflationInfo

/-- An error is logged. -/
def succeeds (x : Update E.toRuntime PUnit) : Update E.toRuntime Bool := fun s =>
  match x s with
  | (.ok _, s') => (.ok true, s')
  | (.err _, s') => (.ok false, s')
  | (.trap t, s') => (.trap t, s')

def assertBalance (p : State E.toRuntime → Bool) (msg : String) : Update E.toRuntime PUnit :=
  Tx.read fun s => if p s then .ok ⟨⟩ else .trap (.expect msg)

/-- The count goes up before a candidate joins and after. -/
def joinAll : (candidateCount : ℕ) → List (E.Account × ℕ) → Update E.toRuntime PUnit
  | _, [] => pure ⟨⟩
  | candidateCount, (candidate, balance) :: rest => do
    assertBalance (fun s => s.collatorStakableFreeBalance candidate ≥ balance)
      "Account does not have enough balance to bond as a candidate."
    let candidateCount := candidateCount + 1
    let joined ← succeeds (joinCandidates (.signed candidate) balance candidateCount)
    joinAll (if joined then candidateCount + 1 else candidateCount) rest

def delegateAll (colDelegatorCount delDelegationCount : StorageMap E.Account ℕ) :
    List (E.Account × E.Account × ℕ) → Update E.toRuntime PUnit
  | [] => pure ⟨⟩
  | (delegator, target, balance) :: rest => do
    assertBalance (fun s => s.delegatorStakableFreeBalance delegator ≥ balance)
      "Account does not have enough balance to place delegation."
    let cdCount := (colDelegatorCount.get target).getD 0
    let ddCount := (delDelegationCount.get delegator).getD 0
    let delegated ← succeeds (delegate (.signed delegator) target balance cdCount ddCount)
    if delegated then
      delegateAll (colDelegatorCount.insert target (cdCount + 1))
        (delDelegationCount.insert delegator (ddCount + 1)) rest
    else delegateAll colDelegatorCount delDelegationCount rest

/-- The storage of the payouts over the stakes of the genesis block. -/
def Storage.ofStakes (config : GenesisConfig E) (stakes : State E.toRuntime) : Storage E :=
  { toState := { stakes with
      totalSelected := E.minSelectedCandidates
      round := ⟨1, 0, E.defaultBlocksPerRound⟩ }
    collatorCommission := E.defaultCollatorCommission
    parachainBondInfo := ⟨E.zeroAccount, E.defaultParachainBondReservePercent⟩
    selectedCandidates := []
    atStake := fun _ => .empty
    delayedPayouts := .empty
    staked := StorageMap.empty.insert 1 stakes.total
    inflationConfig := config.inflationConfig
    points := .empty
    awardedPts := fun _ => []
    notices := [] }

/-- `build`: the storage after the genesis block. -/
def GenesisConfig.build (config : GenesisConfig E) (world : E.World) :
    Exec DispatchError (Storage E) :=
  let joined := (do
    joinAll 0 config.candidates
    delegateAll .empty .empty config.delegations : Update E.toRuntime PUnit) (State.genesis world)
  joined.1 >>= fun _ => (Storage.ofStakes config joined.2).selectTopCandidates 1

end Genesis

/-- What a chain does: it opens a block, makes calls and whatever else changes balances, and closes
the block of an author. -/
inductive Turn (E : Economy) where
  | openBlock (n : ℕ)
  | call (origin : Origin E.toRuntime) (call : Call E.toRuntime)
  | measure (origin : Origin E.toRuntime) (measure : Measure E)
  | other (world : E.World)
  | closeBlock (author : E.Account)

/-- A block whose `on_initialize` panics is not made. -/
def Turn.next (s : Storage E) : Turn E → Storage E
  | .openBlock n =>
    match s.onInitialize n with
    | .ok s' => s'
    | _ => s
  | .call origin c => (dispatchCall origin c s).2
  | .measure origin m => (m.dispatch origin s).2
  | .other world => { s with world }
  | .closeBlock author => s.awardPointsToBlockAuthor author

end Staking
end ZkNft
