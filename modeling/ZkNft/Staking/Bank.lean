import ZkNft.Staking.Sample
import ZkNft.Staking.Blocks
import Mathlib.Algebra.BigOperators.Group.Finset.Piecewise

/-! An economy in memory: the accounts of the sample runtime with balances that deposits add to. -/

namespace ZkNft
namespace Staking
namespace Sample

/-- Balances that sum to a total, which fits a balance. -/
structure Bank where
  balance : ℕ → ℕ
  issued : ℕ
  sum_le : ∀ accounts : Finset ℕ, ∑ a ∈ accounts, balance a ≤ issued
  fits : issued ≤ maxBalance
  locks : World

namespace Bank

/-- Ten accounts with 1000 each, and no locks. -/
def opening : Bank where
  balance := freeBalance
  issued := 10000
  sum_le := sum_freeBalance_le_issued
  fits := by decide
  locks := fun _ _ => none

def credit (bank : Bank) (account amount : ℕ) (h : bank.issued + amount ≤ maxBalance) : Bank where
  balance := Function.update bank.balance account (bank.balance account + amount)
  issued := bank.issued + amount
  sum_le accounts := by
    have hle := bank.sum_le accounts
    by_cases ha : account ∈ accounts
    · have hsum := Finset.add_sum_erase accounts bank.balance ha
      rw [Finset.sum_update_of_mem ha, Finset.sdiff_singleton_eq_erase]
      omega
    · rw [Finset.sum_update_of_notMem ha]
      omega
  fits := h
  locks := bank.locks

/-- Nothing goes to an account that is not there, unless it is nothing. -/
def deposit (bank : Bank) (account amount : ℕ) : Option (ℕ × Bank) :=
  if amount = 0 then some (0, bank)
  else if bank.balance account = 0 then none
  else if h : bank.issued + amount ≤ maxBalance then some (amount, bank.credit account amount h)
  else none

/-- A deposit adds the whole amount, and leaves the locks. -/
theorem deposit_eq_some {bank bank' : Bank} {account amount k : ℕ}
    (h : bank.deposit account amount = some (k, bank')) :
    k = amount ∧ (∀ b, bank.balance b ≤ bank'.balance b) ∧ bank'.locks = bank.locks := by
  unfold deposit at h
  split_ifs at h with hzero
  · obtain ⟨rfl, rfl⟩ := Prod.mk.inj (Option.some.inj h)
    exact ⟨hzero.symm, fun _ => Nat.le_refl _, rfl⟩
  · obtain ⟨rfl, rfl⟩ := Prod.mk.inj (Option.some.inj h)
    refine ⟨rfl, ?_, rfl⟩
    intro b
    show bank.balance b ≤ Function.update bank.balance account (bank.balance account + amount) b
    by_cases hb : b = account
    · rw [hb, Function.update_self]
      exact Nat.le_add_right _ _
    · rw [Function.update_of_ne hb]

end Bank

/-- The sizes that a sample differs in. -/
structure Sizes where
  minDelegatorStk : ℕ
  blocksPerRound : ℕ
  maxTop : ℕ
  maxDelegations : ℕ

def economy (sizes : Sizes) : Economy :=
  { Account := ℕ
    World := Bank
    freeBalance := Bank.balance
    lock := fun w => w.locks
    setLock := fun w id a n => { w with locks := lockUp w.locks id a n }
    removeLock := fun w id a => { w with locks := setLock w.locks id a none }
    whitelist := fun _ => []
    leaveIntent := fun _ _ => none
    minBlocksPerRound := 1
    defaultBlocksPerRound := sizes.blocksPerRound
    leaveCandidatesDelay := 1
    candidateBondLessDelay := 1
    leaveDelegatorsDelay := 1
    revokeDelegationDelay := 1
    minSelectedCandidates := 1
    maxTopDelegationsPerCandidate := sizes.maxTop
    maxBottomDelegationsPerCandidate := 1
    maxDelegationsPerDelegator := sizes.maxDelegations
    minCandidateStk := 10
    minWhitelistCandidateStk := 10
    minDelegation := 1
    minDelegatorStk := sizes.minDelegatorStk
    rewardPaymentDelay := 1
    minCollatorStk := 10
    defaultCollatorCommission := PerThing.fromParts _ 0
    defaultParachainBondReservePercent := PerThing.fromParts _ 0
    zeroAccount := (0 : ℕ)
    storageKey := fun a => a
    totalIssuance := Bank.issued
    depositIntoExisting := Bank.deposit
    pow := fun x exponent => if exponent = Fixed.fromNum 1 then some x else some (Fixed.fromNum 1)
    isMonetaryGovernance := fun origin => match origin with
      | .root => true
      | _ => false }

theorem economy_lawful (sizes : Sizes) : (economy sizes).toRuntime.Lawful where
  issuance (w : Bank) accounts := Nat.le_trans (w.sum_le accounts) w.fits
  setLock_free _ _ _ _ _ := rfl
  setLock_self (w : Bank) id a n hn := lockUp_self w.locks id a hn
  setLock_other (w : Bank) _ _ n _ _ h := lockUp_other w.locks n h
  removeLock_free _ _ _ _ := rfl
  removeLock_other (w : Bank) _ _ _ _ h := setLock_other w.locks none h
  leaveIntent_free _ _ _ h := by cases h
  leaveIntent_lock _ _ _ h := by cases h

theorem economy_proper {sizes : Sizes} (h : 0 < sizes.minDelegatorStk ∧ 1 ≤ sizes.maxTop ∧
    1 ≤ sizes.maxDelegations) : (economy sizes).toRuntime.Proper :=
  ⟨h.2.1, Nat.le_refl 1, h.2.2, Nat.zero_lt_one, h.1⟩

section Chain
variable {sizes : Sizes}

/-- A rate in parts of a billion for every round. -/
def config (rate : ℕ) : GenesisConfig (economy sizes) :=
  let range : Range Perbill := ⟨.fromParts _ rate, .fromParts _ rate, .fromParts _ rate⟩
  ⟨[], [], ⟨⟨0, 0, 0⟩, range, range⟩⟩

/-- The storage after the genesis block. -/
def genesis (rate : ℕ) : Storage (economy sizes) :=
  (Storage.ofStakes (config rate) (State.genesis Bank.opening)).repeatSnapshots 1

theorem build_eq (rate : ℕ) :
    (config rate : GenesisConfig (economy sizes)).build Bank.opening = .ok (genesis rate) := rfl

def caller (n : ℕ) (c : Call (economy sizes).toRuntime) : Turn (economy sizes) :=
  .call (.signed (n : ℕ)) c

/-- The storage after a list of turns. -/
def later (rate : ℕ) (turns : List (Turn (economy sizes))) : Storage (economy sizes) :=
  turns.foldl Turn.next (genesis rate)

end Chain
end Sample
end Staking
end ZkNft
