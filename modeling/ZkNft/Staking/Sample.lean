import ZkNft.Staking.Locks

/-! A runtime of parachain staking in memory: ten accounts with 1000 each, and small lists. -/

namespace ZkNft
namespace Staking
namespace Sample

abbrev World : Type := LockId → ℕ → Option ℕ

def setLock (w : World) (id : LockId) (account : ℕ) (n : Option ℕ) : World := fun id' a =>
  if id' = id ∧ a = account then n else w id' a

/-- A lock of nothing changes nothing. -/
def lockUp (w : World) (id : LockId) (account n : ℕ) : World :=
  if n = 0 then w else setLock w id account (some n)

def freeBalance (account : ℕ) : ℕ := if account < 10 then 1000 else 0

/-- `minDelegatorStk` is the least total of a delegator. -/
def runtime (minDelegatorStk : ℕ) : Runtime :=
  { Account := ℕ
    World
    freeBalance := fun _ => freeBalance
    lock := fun w => w
    setLock := lockUp
    removeLock := fun w id a => setLock w id a none
    whitelist := fun _ => []
    leaveIntent := fun _ _ => none
    minBlocksPerRound := 10
    defaultBlocksPerRound := 10
    leaveCandidatesDelay := 1
    candidateBondLessDelay := 1
    leaveDelegatorsDelay := 1
    revokeDelegationDelay := 1
    minSelectedCandidates := 1
    maxTopDelegationsPerCandidate := 1
    maxBottomDelegationsPerCandidate := 1
    maxDelegationsPerDelegator := 2
    minCandidateStk := 10
    minWhitelistCandidateStk := 10
    minDelegation := 1
    minDelegatorStk }

theorem setLock_self (w : World) (id : LockId) (a : ℕ) (n : Option ℕ) :
    setLock w id a n id a = n := if_pos ⟨rfl, rfl⟩

theorem setLock_other (w : World) {id id' : LockId} {a a' : ℕ} (n : Option ℕ)
    (h : id' ≠ id ∨ a' ≠ a) : setLock w id a n id' a' = w id' a' := by
  apply if_neg
  rintro ⟨rfl, rfl⟩
  rcases h with h | h
  · exact h rfl
  · exact h rfl

theorem lockUp_self (w : World) (id : LockId) (a : ℕ) {n : ℕ} (hn : 0 < n) :
    lockUp w id a n id a = some n := by
  rw [lockUp, if_neg (Nat.ne_of_gt hn)]
  exact setLock_self w id a (some n)

theorem lockUp_other (w : World) {id id' : LockId} {a a' : ℕ} (n : ℕ)
    (h : id' ≠ id ∨ a' ≠ a) : lockUp w id a n id' a' = w id' a' := by
  unfold lockUp
  split_ifs
  · rfl
  · exact setLock_other w (some n) h

theorem sum_freeBalance_le_issued (accounts : Finset ℕ) :
    ∑ a ∈ accounts, freeBalance a ≤ 10000 := by
  have hfilter : ∑ a ∈ accounts, freeBalance a = ∑ _a ∈ accounts.filter (· < 10), 1000 :=
    (Finset.sum_filter ..).symm
  have hcard : (accounts.filter (· < 10)).card ≤ (Finset.range 10).card := by
    apply Finset.card_le_card
    intro a ha
    exact Finset.mem_range.mpr (Finset.mem_filter.mp ha).2
  rw [Finset.card_range] at hcard
  rw [hfilter, Finset.sum_const_nat fun _ _ => rfl]
  omega

theorem sum_freeBalance_le (accounts : Finset ℕ) :
    ∑ a ∈ accounts, freeBalance a ≤ maxBalance := by
  have hissued := sum_freeBalance_le_issued accounts
  have hmax : 10000 ≤ maxBalance := by decide
  omega

theorem runtime_lawful (minDelegatorStk : ℕ) : (runtime minDelegatorStk).Lawful where
  issuance _ := sum_freeBalance_le
  setLock_free _ _ _ _ _ := rfl
  setLock_self w id a n hn := lockUp_self w id a hn
  setLock_other w _ _ n _ _ h := lockUp_other w n h
  removeLock_free _ _ _ _ := rfl
  removeLock_other w _ _ _ _ h := setLock_other w none h
  leaveIntent_free _ _ _ h := by cases h
  leaveIntent_lock _ _ _ h := by cases h

theorem runtime_locking (minDelegatorStk : ℕ) : (runtime minDelegatorStk).Locking where
  toLawful := runtime_lawful minDelegatorStk
  removeLock_self w id a := setLock_self w id a none
  setLock_zero _ _ _ h := h

theorem runtime_proper : (runtime 1).Proper := by
  constructor <;> decide

theorem freeBalance_le (account : ℕ) : freeBalance account ≤ maxBalance := by
  have h := sum_freeBalance_le {account}
  rw [Finset.sum_singleton] at h
  exact h

def start (minDelegatorStk : ℕ) : State (runtime minDelegatorStk) := .genesis fun _ _ => none

def user {minDelegatorStk : ℕ} (n : ℕ) (c : Call (runtime minDelegatorStk)) :
    Move (runtime minDelegatorStk) := .call (.signed (n : ℕ)) c

/-- The state after a list of moves. -/
def after {minDelegatorStk : ℕ} (ms : List (Move (runtime minDelegatorStk))) :
    State (runtime minDelegatorStk) := ms.foldl Move.next (start minDelegatorStk)

end Sample
end Staking
end ZkNft
