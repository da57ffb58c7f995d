import ZkNft.Lib.Fixed
import ZkNft.Lib.PerThing
import ZkNft.Staking.Calls

/-! The rounds of parachain staking: the selection of collators, the points of the block authors,
and the payouts, one collator a block. Weights are left out, and all events but those of
deposits. -/

namespace ZkNft
namespace Staking

abbrev Perbill : Type := PerThing (10 ^ 9)
abbrev Percent : Type := PerThing 100

abbrev I64F64 : Type := Fixed 128 64

def Perbill.fromRational (p q : ℕ) : Perbill := PerThing.fromRational (10 ^ 9) p q

/-- A target value with a minimum and a maximum. -/
structure Range (T : Type) where
  min : T
  ideal : T
  max : T
  deriving DecidableEq

def Range.isValid {T : Type} (le : T → T → Bool) (self : Range T) : Bool :=
  le self.ideal self.max && le self.min self.ideal

/-- The runtime, as far as rewards go. -/
structure Economy extends Runtime where
  rewardPaymentDelay : ℕ
  minCollatorStk : ℕ
  defaultCollatorCommission : Perbill
  defaultParachainBondReservePercent : Percent
  /-- The account that decodes from zeroes. -/
  zeroAccount : Account
  /-- The place of an account in the order of storage. -/
  storageKey : Account → ℕ
  totalIssuance : World → ℕ
  /-- `deposit_into_existing`: the amount of the imbalance, and the balances after it. -/
  depositIntoExisting : World → Account → ℕ → Option (ℕ × World)
  /-- `pow` of fixed point numbers. -/
  pow : I64F64 → I64F64 → Option I64F64
  /-- `MonetaryGovernanceOrigin`. -/
  isMonetaryGovernance : Origin toRuntime → Bool

/-- A year of 365.25 days, with a block every 12 seconds. -/
def blocksPerYear : ℕ := 31557600 / 12

/-- The exposure of a collator at the start of a round. -/
structure CollatorSnapshot (A : Type) where
  bond : ℕ
  delegations : List (Bond A)
  total : ℕ
  deriving DecidableEq

def CollatorSnapshot.default {A : Type} : CollatorSnapshot A := ⟨0, [], 0⟩

structure DelayedPayout where
  roundIssuance : ℕ
  totalStakingReward : ℕ
  collatorCommission : Perbill
  deriving DecidableEq

structure ParachainBondConfig (A : Type) where
  account : A
  percent : Percent
  deriving DecidableEq

structure InflationInfo where
  expect : Range ℕ
  annual : Range Perbill
  round : Range Perbill
  deriving DecidableEq

/-- What the rest of the runtime sees of the payouts for a round: the events of deposits, and the
calls of `on_collator_payout`. -/
inductive Notice (A : Type) where
  | reservedForParachainBond (round : ℕ) (account : A) (value : ℕ)
  | rewarded (round : ℕ) (account : A) (rewards : ℕ)
  | onCollatorPayout (round : ℕ) (collator : A) (amount : ℕ)
  deriving DecidableEq

/-- The storage, with what was noticed so far. -/
structure Storage (E : Economy) extends State E.toRuntime where
  collatorCommission : Perbill
  parachainBondInfo : ParachainBondConfig E.Account
  selectedCandidates : List E.Account
  atStake : ℕ → StorageMap E.Account (CollatorSnapshot E.Account)
  delayedPayouts : StorageMap ℕ DelayedPayout
  staked : StorageMap ℕ ℕ
  inflationConfig : InflationInfo
  points : StorageMap ℕ ℕ
  /-- The entries of each round, in the order of storage. -/
  awardedPts : ℕ → List (E.Account × ℕ)
  notices : List (Notice E.Account)

instance (E : Economy) : LinearOrder E.Account := E.accountOrder

variable {E : Economy}

section Inflation

/-- `(1 + annual) ^ exponent - 1`, rounded up. -/
def annualToRound (E : Economy) (exponent : I64F64) (annual : Perbill) :
    Exec DispatchError Perbill := do
  let x ← Exec.divide ((Fixed.fromNum annual.parts : I64F64).div (Fixed.fromNum (10 ^ 9)))
  let y ← Exec.expect "Cannot overflow since rounds_per_year is u32 so worst case 0; QED"
    (E.pow ((Fixed.fromNum 1).add x) exponent)
  return .fromParts _ (((y.sub (Fixed.fromNum 1)).mul (Fixed.fromNum (10 ^ 9))).ceil.toNum 32)

def perbillAnnualToPerbillRound (E : Economy) (annual : Range Perbill) (roundsPerYear : ℕ) :
    Exec DispatchError (Range Perbill) := do
  let exponent ← Exec.divide ((Fixed.fromNum 1 : I64F64).div (Fixed.fromNum roundsPerYear))
  let min ← annualToRound E exponent annual.min
  let ideal ← annualToRound E exponent annual.ideal
  let max ← annualToRound E exponent annual.max
  return ⟨min, ideal, max⟩

/-- The rates of a round after its length changed. -/
def InflationInfo.resetRound (E : Economy) (self : InflationInfo) (newLength : ℕ) :
    Exec DispatchError InflationInfo := do
  let periods ← Exec.div blocksPerYear newLength
  let round ← perbillAnnualToPerbillRound E self.annual periods
  return { self with round }

def roundsPerYear (s : Storage E) : Exec DispatchError ℕ :=
  Exec.div blocksPerYear s.round.length

def InflationInfo.setRoundFromAnnual (s : Storage E) (self : InflationInfo)
    (new : Range Perbill) : Exec DispatchError InflationInfo := do
  let periods ← roundsPerYear s
  let round ← perbillAnnualToPerbillRound E new periods
  return { self with round }

end Inflation

namespace Storage

/-- `deposit_into_existing`, with a notice of what was deposited. -/
def deposit (s : Storage E) (notice : ℕ → Notice E.Account) (account : E.Account) (amount : ℕ) :
    Storage E × Option ℕ :=
  match E.depositIntoExisting s.world account amount with
  | some (imbalance, world) =>
    ({ s with world, notices := s.notices ++ [notice imbalance] }, some imbalance)
  | none => (s, none)

/-- The issuance of a round in which `staked` was staked. -/
def computeIssuance (s : Storage E) (staked : ℕ) : ℕ :=
  let circulating := E.totalIssuance s.world
  let config := s.inflationConfig
  if staked < config.expect.min then config.round.min.mul circulating
  else if staked > config.expect.max then config.round.max.mul circulating
  else config.round.ideal.mul circulating

section Payouts

def prepareStakingPayouts (s : Storage E) (now : ℕ) : Storage E :=
  if now ≤ E.rewardPaymentDelay then s
  else
    let roundToPayout := now - E.rewardPaymentDelay
    if (s.points.get roundToPayout).getD 0 = 0 then s
    else
      let totalStaked := (s.staked.get roundToPayout).getD 0
      let s := { s with staked := s.staked.remove roundToPayout }
      let totalIssuance := s.computeIssuance totalStaked
      let bondConfig := s.parachainBondInfo
      let (s, reserved) := s.deposit (.reservedForParachainBond roundToPayout bondConfig.account)
        bondConfig.account (bondConfig.percent.mul totalIssuance)
      -- the issuance goes down only if the deposit was made
      let payout : DelayedPayout :=
        ⟨totalIssuance, totalIssuance - reserved.getD 0, s.collatorCommission⟩
      { s with delayedPayouts := s.delayedPayouts.insert roundToPayout payout }

/-- A failed deposit is ignored. -/
def mint (s : Storage E) (round amount : ℕ) (account : E.Account) : Storage E :=
  (s.deposit (.rewarded round account) account amount).1

def payDelegators (round amountDue total : ℕ) :
    Storage E → List (Bond E.Account) → Storage E
  | s, [] => s
  | s, bond :: bonds =>
    let due := (Perbill.fromRational bond.amount total).mul amountDue
    payDelegators round amountDue total (if due = 0 then s else s.mint round due bond.owner) bonds

def onCollatorPayout (s : Storage E) (round : ℕ) (collator : E.Account) (amount : ℕ) : Storage E :=
  { s with notices := s.notices ++ [.onCollatorPayout round collator amount] }

/-- The payment of a collator that has been drawn with `pts` points, and the total that is due. -/
def payCollator (s : Storage E) (round : ℕ) (payout : DelayedPayout) (totalPoints : ℕ)
    (collator : E.Account) (pts : ℕ) : Storage E × ℕ :=
  let collatorIssuance := payout.collatorCommission.mul payout.roundIssuance
  let pctDue := Perbill.fromRational pts totalPoints
  let totalPaid := pctDue.mul payout.totalStakingReward
  let state := ((s.atStake round).get collator).getD .default
  let s := { s with atStake := fun r =>
    if r = round then (s.atStake r).remove collator else s.atStake r }
  if state.delegations.isEmpty then
    ((s.mint round totalPaid collator).onCollatorPayout round collator totalPaid, totalPaid)
  else
    let collatorPct := Perbill.fromRational state.bond state.total
    let commission := pctDue.mul collatorIssuance
    let amountDue := totalPaid - commission
    let collatorReward := satAdd (collatorPct.mul amountDue) commission
    let s := (s.mint round collatorReward collator).onCollatorPayout round collator collatorReward
    (payDelegators round amountDue state.total s state.delegations, totalPaid)

/-- The first entry in the order of storage is drained. -/
def payOneCollatorReward (s : Storage E) (paidForRound : ℕ) (payout : DelayedPayout) :
    Storage E × Option (E.Account × ℕ) :=
  let totalPoints := (s.points.get paidForRound).getD 0
  if totalPoints = 0 then (s, none)
  else
    match s.awardedPts paidForRound with
    | (collator, pts) :: rest =>
      let s := { s with awardedPts := fun r => if r = paidForRound then rest else s.awardedPts r }
      let (s, totalPaid) := s.payCollator paidForRound payout totalPoints collator pts
      (s, some (collator, totalPaid))
    | [] => (s, none)

def handleDelayedPayouts (s : Storage E) (now : ℕ) : Storage E :=
  if now < E.rewardPaymentDelay then s
  else
    let paidForRound := now - E.rewardPaymentDelay
    match s.delayedPayouts.get paidForRound with
    | some payout =>
      match s.payOneCollatorReward paidForRound payout with
      | (s, some _) => s
      | (s, none) => { s with
          delayedPayouts := s.delayedPayouts.remove paidForRound
          points := s.points.remove paidForRound }
    | none => s

end Payouts

section Selection

/-- The owners of the greatest stakes in the pool, in their own order. -/
def computeTopCandidates (s : Storage E) : List E.Account :=
  let candidates := (s.candidatePool.insertionSort fun a b => a.amount ≤ b.amount).reverse
  let collators := (candidates.take s.totalSelected).filter fun x => x.amount ≥ E.minCollatorStk
  (collators.map Bond.owner).insertionSort (· ≤ ·)

/-- The last request of a delegator. -/
def requestOf (requests : List (ScheduledRequest E.Account)) (delegator : E.Account) :
    Option DelegationAction :=
  ((requests.filter fun x => x.delegator = delegator).getLast?).map ScheduledRequest.action

/-- The delegations with their pending requests taken off, and the sum of what was taken off. -/
def countDelegations (requests : List (ScheduledRequest E.Account)) :
    (uncountedStake : ℕ) → List (Bond E.Account) → ℕ × List (Bond E.Account)
  | uncountedStake, [] => (uncountedStake, [])
  | uncountedStake, bond :: bonds =>
    let (uncountedStake, amount) :=
      match requestOf requests bond.owner with
      | none => (uncountedStake, bond.amount)
      | some (.revoke _) => (satAdd uncountedStake bond.amount, 0)
      | some (.decrease amount) => (satAdd uncountedStake amount, bond.amount - amount)
    let (uncountedStake, rewardable) := countDelegations requests uncountedStake bonds
    (uncountedStake, ⟨bond.owner, amount⟩ :: rewardable)

def getRewardableDelegators (s : Storage E) (collator : E.Account) :
    Exec DispatchError (ℕ × List (Bond E.Account)) := do
  let top ← Exec.expect "all members of CandidateQ must be candidates"
    (s.topDelegations.get collator)
  return countDelegations (s.delegationScheduledRequests collator) 0 top.delegations

/-- The snapshots of the collators of a round. -/
def snapshotAll (now : ℕ) : Storage E → List E.Account → Exec DispatchError (Storage E)
  | s, [] => return s
  | s, account :: accounts => do
    let state ← Exec.expect "all members of CandidateQ must be candidates"
      (s.candidateInfo.get account)
    let (uncountedStake, rewardable) ← s.getRewardableDelegators account
    let snapshot : CollatorSnapshot E.Account :=
      ⟨state.bond, rewardable, state.totalCounted - uncountedStake⟩
    snapshotAll now { s with atStake := fun r =>
      if r = now then (s.atStake r).insert account snapshot else s.atStake r } accounts

/-- The snapshots of the round before are those of this round as well. -/
def repeatSnapshots (s : Storage E) (now : ℕ) : Storage E :=
  { s with atStake := fun r =>
      if r = now then ⟨fun account => ((s.atStake (now - 1)).get account).or
        ((s.atStake r).get account)⟩
      else s.atStake r }

/-- Every selected candidate is looked up among the snapshots of the round before. -/
def expectSnapshots (last : StorageMap E.Account (CollatorSnapshot E.Account)) :
    List E.Account → Exec DispatchError PUnit
  | [] => return ⟨⟩
  | candidate :: candidates => do
    let _ ← Exec.expect "all selected candidates have snapshots" (last.get candidate)
    expectSnapshots last candidates

def selectTopCandidates (s : Storage E) (now : ℕ) : Exec DispatchError (Storage E) :=
  match s.computeTopCandidates with
  | [] => do
    expectSnapshots (s.atStake (now - 1)) s.selectedCandidates
    return s.repeatSnapshots now
  | collators => do
    let s ← snapshotAll now s collators
    return { s with selectedCandidates := collators }

end Selection

section Hooks

def onInitialize (s : Storage E) (n : ℕ) : Exec DispatchError (Storage E) :=
  if s.round.shouldUpdate n then do
    let round := s.round.update n
    let s := s.prepareStakingPayouts round.current
    let s ← s.selectTopCandidates round.current
    let s := { s with round, staked := s.staked.insert round.current s.total }
    return s.handleDelayedPayouts round.current
  else return s.handleDelayedPayouts s.round.current

def maxPoints : ℕ := 2 ^ 32 - 1

/-- `AwardedPts::insert`. -/
def insertAwarded (entries : List (E.Account × ℕ)) (author : E.Account) (score : ℕ) :
    List (E.Account × ℕ) :=
  (entries.filter fun x => x.1 ≠ author).orderedInsert
    (fun x y => E.storageKey x.1 ≤ E.storageKey y.1) (author, score)

/-- `AwardedPts::get`. -/
def awarded (entries : List (E.Account × ℕ)) (author : E.Account) : ℕ :=
  (entries.find? fun x => x.1 = author).elim 0 Prod.snd

def awardPointsToBlockAuthor (s : Storage E) (author : E.Account) : Storage E :=
  let now := s.round.current
  let scorePlus20 := min (awarded (s.awardedPts now) author + 20) maxPoints
  { s with
    awardedPts := fun r =>
      if r = now then insertAwarded (s.awardedPts r) author scorePlus20 else s.awardedPts r
    points := s.points.insert now (min ((s.points.get now).getD 0 + 20) maxPoints) }

end Hooks
end Storage
end Staking
end ZkNft
