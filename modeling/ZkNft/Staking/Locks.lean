import Mathlib.Algebra.BigOperators.Group.Finset.Basic
import ZkNft.Staking.Books

/-! The locks under the stakes, and the currency that keeps them. -/

namespace ZkNft
namespace Staking
open StorageMap

variable {R : Runtime}

/-- What staking relies on in the currency and the collator selection. -/
structure Runtime.Lawful (R : Runtime) : Prop where
  /-- The issuance of the currency is a balance. -/
  issuance : ∀ (w : R.World) (accounts : Finset R.Account),
    ∑ a ∈ accounts, R.freeBalance w a ≤ maxBalance
  setLock_free : ∀ w id a n b, R.freeBalance (R.setLock w id a n) b = R.freeBalance w b
  setLock_self : ∀ w id a n, 0 < n → R.lock (R.setLock w id a n) id a = some n
  setLock_other : ∀ w id a n id' a', id' ≠ id ∨ a' ≠ a →
    R.lock (R.setLock w id a n) id' a' = R.lock w id' a'
  removeLock_free : ∀ w id a b, R.freeBalance (R.removeLock w id a) b = R.freeBalance w b
  removeLock_other : ∀ w id a id' a', id' ≠ id ∨ a' ≠ a →
    R.lock (R.removeLock w id a) id' a' = R.lock w id' a'
  /-- The deposit comes back. -/
  leaveIntent_free : ∀ w a w', R.leaveIntent w a = some w' →
    ∀ b, R.freeBalance w b ≤ R.freeBalance w' b
  leaveIntent_lock : ∀ w a w', R.leaveIntent w a = some w' → ∀ id b, R.lock w' id b = R.lock w id b

/-- What staking relies on for locks that are not too high either. -/
structure Runtime.Locking (R : Runtime) : Prop extends R.Lawful where
  removeLock_self : ∀ w id a, R.lock (R.removeLock w id a) id a = none
  /-- A lock of nothing is not made. -/
  setLock_zero : ∀ w id a, R.lock w id a = none → R.lock (R.setLock w id a 0) id a = none

/-- What the rest of the runtime can do to the currency: move what is not locked. -/
structure Runtime.Permits (R : Runtime) (w w' : R.World) : Prop where
  lock : ∀ id a, R.lock w' id a = R.lock w id a
  free : ∀ id a n, R.lock w' id a = some n → n ≤ R.freeBalance w' a

/-- A stake of `n` is there and locked. -/
structure Covered (w : R.World) (id : LockId) (a : R.Account) (n : ℕ) : Prop where
  free : n ≤ R.freeBalance w a
  locked : n ≤ (R.lock w id a).getD 0

section Covered
variable {w w' : R.World} {id id' : LockId} {a a' : R.Account} {n n' : ℕ}

theorem Covered.keep (h : Covered w id a n) (hfree : R.freeBalance w a ≤ R.freeBalance w' a)
    (hlock : R.lock w' id a = R.lock w id a) : Covered w' id a n := by
  refine ⟨Nat.le_trans h.free hfree, ?_⟩
  rw [hlock]
  exact h.locked

theorem Covered.permits (h : Covered w id a n) (hp : R.Permits w w') : Covered w' id a n := by
  have hlocked := h.locked
  rw [← hp.lock] at hlocked
  refine ⟨?_, hlocked⟩
  cases hlock : R.lock w' id a with
  | none =>
    rw [hlock] at hlocked
    exact Nat.le_trans hlocked (Nat.zero_le _)
  | some k =>
    rw [hlock] at hlocked
    exact Nat.le_trans hlocked (hp.free id a k hlock)

variable (hL : R.Lawful)
include hL

theorem Covered.setLock (h : Covered w id a n) (hne : id ≠ id' ∨ a ≠ a') :
    Covered (R.setLock w id' a' n') id a n :=
  h.keep (Nat.le_of_eq (hL.setLock_free ..).symm) (hL.setLock_other _ _ _ _ _ _ hne)

theorem Covered.removeLock (h : Covered w id a n) (hne : id ≠ id' ∨ a ≠ a') :
    Covered (R.removeLock w id' a') id a n :=
  h.keep (Nat.le_of_eq (hL.removeLock_free ..).symm) (hL.removeLock_other _ _ _ _ _ hne)

theorem Covered.leaveIntent (h : Covered w id a n) (hleave : R.leaveIntent w a' = some w') :
    Covered w' id a n :=
  h.keep (hL.leaveIntent_free _ _ _ hleave a) (hL.leaveIntent_lock _ _ _ hleave id a)

/-- A new lock covers what is there; none is needed for nothing. -/
theorem covered_setLock (h : n ≤ R.freeBalance w a) : Covered (R.setLock w id a n) id a n := by
  refine ⟨by rw [hL.setLock_free]; exact h, ?_⟩
  rcases Nat.eq_zero_or_pos n with rfl | hpos
  · exact Nat.zero_le _
  · rw [hL.setLock_self w id a n hpos, Option.getD_some]

end Covered

/-- The lock of a delegator is set to its total. -/
def Runtime.relock (R : Runtime) (w : R.World) (D : Delegator R.Account) : R.World :=
  if D.total = 0 then R.removeLock w .delegator D.id else R.setLock w .delegator D.id D.total

/-- Every stake is covered. -/
structure Covers (w : R.World) (candidates : StorageMap R.Account CandidateMetadata)
    (delegators : StorageMap R.Account (Delegator R.Account)) : Prop where
  candidate : ∀ c m, candidates.get c = some m → Covered w .collator c m.bond
  delegator : ∀ d D, delegators.get d = some D → Covered w .delegator d D.total

abbrev Backed (s : State R) : Prop := Covers s.world s.candidateInfo s.delegatorState

section Relock
variable {w : R.World} {id : LockId} {a : R.Account} {n : ℕ} {D : Delegator R.Account}
  (hL : R.Lawful)
include hL

theorem Covered.relock (h : Covered w id a n) (hne : id ≠ .delegator ∨ a ≠ D.id) :
    Covered (R.relock w D) id a n := by
  unfold Runtime.relock
  split_ifs
  · exact h.removeLock hL hne
  · exact h.setLock hL hne

theorem relock_free : R.freeBalance (R.relock w D) a = R.freeBalance w a := by
  unfold Runtime.relock
  split_ifs
  · exact hL.removeLock_free ..
  · exact hL.setLock_free ..

theorem covered_relock (h : D.total ≤ R.freeBalance w D.id) :
    Covered (R.relock w D) .delegator D.id D.total := by
  unfold Runtime.relock
  split_ifs with hzero
  · rw [hzero]
    exact ⟨Nat.zero_le _, Nat.zero_le _⟩
  · exact covered_setLock hL h

end Relock

/-- The lock of a stake of `n`: there is none on nothing. -/
def lockOf (n : ℕ) : Option ℕ := if n = 0 then none else some n

/-- Every lock is that of a stake. -/
structure Locks (w : R.World) (candidates : StorageMap R.Account CandidateMetadata)
    (delegators : StorageMap R.Account (Delegator R.Account)) : Prop where
  collator : ∀ a, R.lock w .collator a =
    lockOf ((candidates.get a).elim 0 CandidateMetadata.bond)
  delegator : ∀ a, R.lock w .delegator a = lockOf ((delegators.get a).elim 0 Delegator.total)

abbrev Locked (s : State R) : Prop := Locks s.world s.candidateInfo s.delegatorState

section Locked
variable {w : R.World} {id : LockId} {a : R.Account} {n k : ℕ} {D : Delegator R.Account}

/-- A lock is set to what is staked, and a stake that there was does not go to nothing. -/
theorem lock_setLock (hL : R.Locking) (h : R.lock w id a = lockOf k) (hk : n = 0 → k = 0) :
    R.lock (R.setLock w id a n) id a = lockOf n := by
  by_cases hn : n = 0
  · rw [hk hn] at h
    rw [hn]
    exact hL.setLock_zero w id a h
  · rw [lockOf, if_neg hn]
    exact hL.setLock_self w id a n (Nat.pos_of_ne_zero hn)

theorem lock_relock_self (hL : R.Locking) :
    R.lock (R.relock w D) .delegator D.id = lockOf D.total := by
  unfold Runtime.relock lockOf
  split_ifs with hzero
  · exact hL.removeLock_self w _ _
  · exact hL.setLock_self w _ _ _ (Nat.pos_of_ne_zero hzero)

theorem lock_relock_other (hL : R.Lawful) (hne : id ≠ .delegator ∨ a ≠ D.id) :
    R.lock (R.relock w D) id a = R.lock w id a := by
  unfold Runtime.relock
  split_ifs
  · exact hL.removeLock_other _ _ _ _ _ hne
  · exact hL.setLock_other _ _ _ _ _ _ hne

variable {candidates : StorageMap R.Account CandidateMetadata}
  {delegators : StorageMap R.Account (Delegator R.Account)} {c d : R.Account}
  {m m' : CandidateMetadata}

/-- Other metadata with the same bond. -/
theorem Locks.edit (h : Locks w candidates delegators) (hm : candidates.get c = some m)
    (hbond : m'.bond = m.bond) : Locks w (candidates.insert c m') delegators := by
  refine ⟨?_, h.delegator⟩
  intro b
  rw [h.collator b]
  by_cases hb : b = c
  · rw [hb, get_insert_self, hm, Option.elim_some, Option.elim_some, hbond]
  · rw [get_insert_of_ne _ _ hb]

/-- A new bond is locked, and a bond that there was does not go to nothing. -/
theorem Locks.setBond (hL : R.Locking) (h : Locks w candidates delegators)
    (hpos : m'.bond = 0 → (candidates.get c).elim 0 CandidateMetadata.bond = 0) :
    Locks (R.setLock w .collator c m'.bond) (candidates.insert c m') delegators := by
  constructor
  · intro b
    by_cases hb : b = c
    · rw [hb, get_insert_self, Option.elim_some]
      exact lock_setLock hL (h.collator c) hpos
    · rw [get_insert_of_ne _ _ hb, ← h.collator b]
      exact hL.setLock_other _ _ _ _ _ _ (.inr hb)
  · intro b
    rw [← h.delegator b]
    exact hL.setLock_other _ _ _ _ _ _ (.inl LockId.noConfusion)

theorem Locks.removeBond (hL : R.Locking) (h : Locks w candidates delegators) :
    Locks (R.removeLock w .collator c) (candidates.remove c) delegators := by
  constructor
  · intro b
    by_cases hb : b = c
    · rw [hb, get_remove_self]
      exact hL.removeLock_self w _ _
    · rw [get_remove_of_ne _ hb, ← h.collator b]
      exact hL.removeLock_other _ _ _ _ _ (.inr hb)
  · intro b
    rw [← h.delegator b]
    exact hL.removeLock_other _ _ _ _ _ (.inl LockId.noConfusion)

/-- A delegator gets a new lock, and other entries stay. -/
theorem Locks.setTotal {delegators' : StorageMap R.Account (Delegator R.Account)}
    (hL : R.Locking) (h : Locks w candidates delegators) (hid : D.id = d)
    (hself : D.total = (delegators'.get d).elim 0 Delegator.total)
    (hother : ∀ b, b ≠ d → delegators'.get b = delegators.get b) :
    Locks (R.relock w D) candidates delegators' := by
  subst hid
  constructor
  · intro b
    rw [← h.collator b]
    exact lock_relock_other hL.toLawful (.inl LockId.noConfusion)
  · intro b
    by_cases hb : b = D.id
    · rw [hb, ← hself]
      exact lock_relock_self hL
    · rw [hother b hb, ← h.delegator b]
      exact lock_relock_other hL.toLawful (.inr hb)

end Locked
end Staking
end ZkNft
