import ZkNft.Lib.BinarySearch
import Mathlib.Data.List.Sort
import Mathlib.Data.List.Destutter
import Mathlib.Algebra.GroupWithZero.Nat

/-! The records of parachain staking and what they compute by themselves. Counts and round numbers
are `ℕ`; sums with a delay are those of `u32`. Balances are `ℕ` below `2 ^ 128`, whose sums
saturate. -/

namespace ZkNft
namespace Staking
open BinarySearch

def maxBalance : ℕ := 2 ^ 128 - 1

/-- `saturating_add` of balances. -/
def satAdd (a b : ℕ) : ℕ := min (a + b) maxBalance

/-- `+` of rounds, which wraps in a release build. -/
def addRounds (a b : ℕ) : ℕ := (a + b) % 2 ^ 32

/-- `saturating_add` of rounds. -/
def satAddRounds (a b : ℕ) : ℕ := min (a + b) (2 ^ 32 - 1)

section Rounds
variable {a b : ℕ}

theorem addRounds_le (a b : ℕ) : addRounds a b ≤ a + b := Nat.mod_le _ _

theorem addRounds_eq (h : a + b < 2 ^ 32) : addRounds a b = a + b := Nat.mod_eq_of_lt h

theorem satAddRounds_le (a b : ℕ) : satAddRounds a b ≤ a + b := Nat.min_le_left _ _

theorem satAddRounds_eq (h : a + b < 2 ^ 32) : satAddRounds a b = a + b :=
  Nat.min_eq_left (Nat.le_sub_one_of_lt h)

end Rounds

/-- An amount under an account. -/
structure Bond (A : Type) where
  owner : A
  amount : ℕ
  deriving DecidableEq, Repr

inductive CollatorStatus where
  | active
  | idle
  | leaving (when : ℕ)
  deriving DecidableEq, Repr

inductive CapacityStatus where
  | full
  | empty
  | partially
  deriving DecidableEq, Repr

structure CandidateBondLessRequest where
  amount : ℕ
  whenExecutable : ℕ
  deriving DecidableEq, Repr

/-- The place behind the run of entries with `amount` that starts at index `i`. -/
def afterEqual {A : Type} (amount : ℕ) : (i : ℕ) → List (Bond A) → ℕ
  | i, [] => i
  | i, x :: xs => if x.amount = amount then afterEqual amount (i + 1) xs else i

/-- The top or the bottom delegations of a candidate. -/
structure Delegations (A : Type) where
  delegations : List (Bond A)
  total : ℕ
  deriving DecidableEq, Repr

namespace Delegations
variable {A : Type}

def empty : Delegations A := ⟨[], 0⟩

def sortGreatestToLeast (self : Delegations A) : Delegations A :=
  { self with delegations := self.delegations.insertionSort fun a b => b.amount ≤ a.amount }

/-- `insert_sorted_greatest_to_least`, where the binary search has reported `found`. -/
def insertSortedAt (self : Delegations A) (found : Except ℕ ℕ) (delegation : Bond A) :
    Delegations A :=
  let total := satAdd self.total delegation.amount
  if self.delegations.getLast?.map Bond.amount = some delegation.amount then
    ⟨self.delegations ++ [delegation], total⟩
  else
    match found with
    | .ok i =>
      let place := afterEqual delegation.amount (i + 1) (self.delegations.drop (i + 1))
      ⟨self.delegations.insertIdx place delegation, total⟩
    | .error i => ⟨self.delegations.insertIdx i delegation, total⟩

def insertSortedGreatestToLeast (self : Delegations A) (delegation : Bond A) : Delegations A :=
  self.insertSortedAt
    (binarySearchBy (fun x => compare delegation.amount x.amount) self.delegations) delegation

def capacity (max : ℕ) (self : Delegations A) : CapacityStatus :=
  if self.delegations.length ≥ max then .full
  else if self.delegations.isEmpty then .empty
  else .partially

def lowestDelegationAmount (self : Delegations A) : ℕ :=
  (self.delegations.getLast?.map Bond.amount).getD 0

def highestDelegationAmount (self : Delegations A) : ℕ :=
  (self.delegations.head?.map Bond.amount).getD 0

end Delegations

/-- All candidate info except the top and bottom delegations. -/
structure CandidateMetadata where
  bond : ℕ
  delegationCount : ℕ
  totalCounted : ℕ
  lowestTopDelegationAmount : ℕ
  highestBottomDelegationAmount : ℕ
  lowestBottomDelegationAmount : ℕ
  topCapacity : CapacityStatus
  bottomCapacity : CapacityStatus
  request : Option CandidateBondLessRequest
  status : CollatorStatus
  deriving DecidableEq, Repr

namespace CandidateMetadata

def new (bond : ℕ) : CandidateMetadata :=
  { bond
    delegationCount := 0
    totalCounted := bond
    lowestTopDelegationAmount := 0
    highestBottomDelegationAmount := 0
    lowestBottomDelegationAmount := 0
    topCapacity := .empty
    bottomCapacity := .empty
    request := none
    status := .active }

def isActive (self : CandidateMetadata) : Bool := decide (self.status = .active)

def isLeaving (self : CandidateMetadata) : Bool :=
  match self.status with
  | .active => false
  | .idle => false
  | .leaving _ => true

end CandidateMetadata

/-! A set of bonds, ordered by owner. -/

namespace OrderedSet
variable {A : Type} [LinearOrder A]

def search (self : List (Bond A)) (owner : A) : Except ℕ ℕ :=
  binarySearchBy (fun x => compare x.owner owner) self

/-- `OrderedSet::from`: sort, then drop repeated owners. -/
def ofList (l : List (Bond A)) : List (Bond A) :=
  (l.insertionSort fun a b => a.owner ≤ b.owner).destutter fun a b => a.owner ≠ b.owner

/-- The set with `value`, if its owner is new. -/
def insert (self : List (Bond A)) (value : Bond A) : Option (List (Bond A)) :=
  match search self value.owner with
  | .ok _ => none
  | .error loc => some (self.insertIdx loc value)

/-- The set without the entry of `owner`, if there is one. -/
def remove (self : List (Bond A)) (owner : A) : Option (List (Bond A)) :=
  match search self owner with
  | .ok loc => some (self.eraseIdx loc)
  | .error _ => none

end OrderedSet

inductive DelegatorStatus where
  | active
  | leaving (when : ℕ)
  deriving DecidableEq, Repr

structure Delegator (A : Type) where
  id : A
  /-- Ordered by candidate. -/
  delegations : List (Bond A)
  total : ℕ
  lessTotal : ℕ
  status : DelegatorStatus
  deriving DecidableEq, Repr

namespace Delegator
variable {A : Type} [LinearOrder A]

def new (id collator : A) (amount : ℕ) : Delegator A :=
  ⟨id, OrderedSet.ofList [⟨collator, amount⟩], amount, 0, .active⟩

/-- The state with a new delegation, if there is none to its owner yet. -/
def addDelegation (self : Delegator A) (bond : Bond A) : Option (Delegator A) :=
  (OrderedSet.insert self.delegations bond).map fun delegations =>
    { self with delegations, total := satAdd self.total bond.amount }

def getBondAmount (self : Delegator A) (collator : A) : Option ℕ :=
  (self.delegations.find? fun b => b.owner = collator).map Bond.amount

end Delegator

inductive BondAdjust where
  | increase (amount : ℕ)
  | decrease
  deriving DecidableEq, Repr

inductive DelegationAction where
  | revoke (amount : ℕ)
  | decrease (amount : ℕ)
  deriving DecidableEq, Repr

namespace DelegationAction

def amount : DelegationAction → ℕ
  | revoke amount => amount
  | decrease amount => amount

def isRevoke : DelegationAction → Bool
  | revoke _ => true
  | decrease _ => false

end DelegationAction

structure ScheduledRequest (A : Type) where
  delegator : A
  whenExecutable : ℕ
  action : DelegationAction
  deriving DecidableEq, Repr

/-- The first request of `delegator`, and the list without it. -/
def takeRequest {A : Type} [DecidableEq A] (delegator : A) (requests : List (ScheduledRequest A)) :
    Option (ScheduledRequest A × List (ScheduledRequest A)) :=
  (requests.find? fun r => r.delegator = delegator).map fun request =>
    (request, requests.eraseP fun r => r.delegator = delegator)

/-- The current round, its first block and its length in blocks. -/
structure RoundInfo where
  current : ℕ
  first : ℕ
  length : ℕ
  deriving DecidableEq, Repr

namespace RoundInfo

def shouldUpdate (self : RoundInfo) (now : ℕ) : Bool := decide (now - self.first ≥ self.length)

def update (self : RoundInfo) (now : ℕ) : RoundInfo :=
  { self with current := self.current + 1, first := now }

end RoundInfo

end Staking
end ZkNft
