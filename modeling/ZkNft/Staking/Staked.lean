import ZkNft.Staking.Soundness

/-! The locks are those of the stakes, and of nothing else. -/

namespace ZkNft
namespace Staking
open Keyed StorageMap

variable {R : Runtime}

section Effects
variable {s s' : State R} (hL : R.Locking)

/-- The same bonds and totals under the same locks. -/
theorem Locks.same {w w' : R.World}
    {candidates candidates' : StorageMap R.Account CandidateMetadata}
    {delegators delegators' : StorageMap R.Account (Delegator R.Account)}
    (h : Locks w candidates delegators) (hw : ∀ id a, R.lock w' id a = R.lock w id a)
    (hc : ∀ a, (candidates'.get a).elim 0 CandidateMetadata.bond =
      (candidates.get a).elim 0 CandidateMetadata.bond)
    (hd : ∀ a, (delegators'.get a).elim 0 Delegator.total =
      (delegators.get a).elim 0 Delegator.total) : Locks w' candidates' delegators' := by
  constructor
  · intro a
    rw [hw, hc]
    exact h.collator a
  · intro a
    rw [hw, hd]
    exact h.delegator a

theorem satAdd_eq_zero {a b : ℕ} (h : satAdd a b = 0) : a = 0 := by
  have hmax : 0 < maxBalance := by decide
  unfold satAdd at h
  omega

/-- The bonds of the candidates that a delegator leaves stay. -/
theorem Left.bond {d : R.Account} {cs : List R.Account} (h : Left s s' d cs) (c : R.Account) :
    (s'.candidateInfo.get c).elim 0 CandidateMetadata.bond =
      (s.candidateInfo.get c).elim 0 CandidateMetadata.bond := by
  cases hc : s'.candidateInfo.get c with
  | none =>
    rw [h.keys c hc]
  | some m' =>
    obtain ⟨m, hm, hbond, -⟩ := h.info c m' hc
    rw [hm]
    exact hbond

theorem Room.locked {c : R.Account} {bottom bottom₀ : Delegations R.Account}
    {o : List (Bond R.Account)} {s₁ : State R} {less : Option ℕ}
    (h : Room s c bottom o bottom₀ s₁ less) (hL : R.Locking) (hl : Locked s) : Locked s₁ := by
  cases h with
  | free => exact hl
  | kicked v => exact v.locked hL hl

include hL in
theorem Effect.locked (h : Effect s s') (hs : Sound s) (hl : Locked s) : Locked s' := by
  cases h with
  | quiet => exact hl
  | edit _ hm _ hbond => exact hl.edit hm hbond
  | @bondMore c m m' more _ hm _ _ hbond _ =>
    apply hl.setBond hL
    intro hzero
    rw [hbond] at hzero
    rw [hm]
    exact satAdd_eq_zero hzero
  | @bondLess c m m' r _ hm hr _ hbond _ =>
    have hless := hs.less c m r hm hr
    apply hl.setBond hL
    intro hzero
    omega
  | @join c bond world _ hc _ hworld _ =>
    have hsame : ∀ id a, R.lock world id a = R.lock s.world id a := by
      rcases hworld with rfl | hleave
      · exact fun _ _ => rfl
      · exact hL.leaveIntent_lock _ _ _ hleave
    have hl' : Locks world s.candidateInfo s.delegatorState :=
      hl.same hsame (fun _ => rfl) fun _ => rfl
    have hnone : (s.candidateInfo.get c).elim 0 CandidateMetadata.bond = 0 := by
      rw [hc]
      rfl
    have hstored : Locks (R.setLock world .collator c (CandidateMetadata.new bond).bond)
        (s.candidateInfo.insert c (.new bond)) s.delegatorState := hl'.setBond hL fun _ => hnone
    exact hstored
  | leave _ _ _ hreturned => exact (hreturned.locked hL hl).removeBond hL
  | @delegate c d a m m' _ _ _ _ D hm _ _ hadded _ hD =>
    obtain ⟨o, bottom₀, s₁, top', bottom', hroom, rfl, hlists, -⟩ := hadded
    have hl₁ : Locks s₁.world s.candidateInfo s₁.delegatorState := by
      have hl₁ := hroom.locked hL hl
      have hinfo : s₁.candidateInfo = s.candidateInfo := by
        cases hroom <;> rfl
      rw [Locked, hinfo] at hl₁
      exact hl₁
    have hstored : Locks (R.relock s₁.world D) s.candidateInfo (s₁.delegatorState.insert d D) := by
      apply hl₁.setTotal hL hD.id
      · rw [get_insert_self]
        rfl
      · exact fun b hb => get_insert_of_ne _ _ hb
    exact hstored.edit hm hlists.bond
  | @increase c d a more D _ w _ hD _ _ _ =>
    have hid := (hs.books.delegators d D hD).id
    apply (hl.edit w.info w.relists.bond).setTotal
      (D := D.changed c (satAdd · more) (satAdd D.total more) D.lessTotal) hL hid
    · show _ = ((s.delegatorState.insert d _).get d).elim 0 Delegator.total
      rw [get_insert_self]
      rfl
    · exact fun b hb => get_insert_of_ne _ _ hb
  | @rerequest d D requests l hD _ _ =>
    apply hl.same (fun _ _ => rfl) fun _ => rfl
    intro b
    show ((s.delegatorState.insert d _).get b).elim 0 Delegator.total = _
    by_cases hb : b = d
    · rw [hb, get_insert_self, hD]
      rfl
    · rw [get_insert_of_ne _ _ hb]
  | revoke w _ v => exact (v.locked hL hl).edit w.info w.relists.bond
  | @leaveDelegators d D info _ _ _ _ _ hD hleft _ _ =>
    have hid := (hs.books.delegators d D hD).id
    have hinfo : Locks s.world info s.delegatorState :=
      hl.same (fun _ _ => rfl) hleft.bond fun _ => rfl
    apply hinfo.setTotal (D := { D with total := D.total - D.total }) hL hid
    · show D.total - D.total = ((s.delegatorState.remove d).get d).elim 0 Delegator.total
      rw [get_remove_self, Nat.sub_self]
      rfl
    · exact fun b hb => get_remove_of_ne _ hb

include hL in
theorem Decreased.locked {c d : R.Account} {a less : ℕ} (h : Decreased s s' c d a less)
    (hs : Sound s) (hl : Locked s) : Locked s' := by
  obtain ⟨w, D, hD, -, -, -, -, rfl⟩ := h.out
  have hid := (hs.books.delegators d D hD).id
  apply (hl.edit w.info w.relists.bond).setTotal
    (D := D.changed c (· - less) (D.total - less) (D.lessTotal - less)) hL hid
  · show _ = ((s.delegatorState.insert d _).get d).elim 0 Delegator.total
    rw [get_insert_self]
    rfl
  · exact fun b hb => get_insert_of_ne _ _ hb

end Effects

section Moves
variable {s : State R} (hR : R.Placed) (hL : R.Locking)

include hR hL in
theorem Locked.next (hs : Sound s) {m : Move R} (hm : m.Permitted s) (hl : Locked s) :
    Locked (m.next s) := by
  cases m with
  | call origin call =>
    show Locked (call.dispatch origin s).2
    by_cases hok : ∃ u, (call.dispatch origin s).1 = .ok u
    · obtain ⟨u, hu⟩ := hok
      rcases call.dispatch_effect hR hs.books hL.free_le (Prod.ext hu rfl) with
        h | ⟨_, _, _, _, _, _, h⟩
      · exact h.locked hL hs hl
      · exact h.locked hL hs hl
    · rw [Call.dispatch_rollback fun u hu => hok ⟨u, hu⟩]
      exact hl
  | block now => exact hl
  | other world => exact hl.same hm.lock (fun _ => rfl) fun _ => rfl

theorem Locked.genesis {world : R.World} (hworld : ∀ id a, R.lock world id a = none) :
    Locked (State.genesis world) :=
  ⟨hworld .collator, hworld .delegator⟩

end Moves

/-- Every account has the locks of its stakes, and nobody is a candidate and a delegator. -/
structure LocksExact (s : State R) : Prop where
  collator : ∀ a, R.lock s.world .collator a =
    lockOf ((s.candidateInfo.get a).elim 0 CandidateMetadata.bond)
  delegator : ∀ a, R.lock s.world .delegator a =
    lockOf ((s.delegatorState.get a).elim 0 Delegator.total)
  apart : ∀ a, s.candidateInfo.get a = none ∨ s.delegatorState.get a = none

/-- In every state reached from one without such locks, the locks are those of the stakes. -/
theorem locks_exact (hR : R.Placed) (hL : R.Locking) {world : R.World}
    (hworld : ∀ id a, R.lock world id a = none) {tr : List (State R × Move R)} {s : State R}
    (h : LawfulRuns (State.genesis world) tr s) : LocksExact s := by
  have hinvariant : Sound s ∧ Locked s := by
    apply h.invariant (I := fun s => Sound s ∧ Locked s) ⟨.genesis world, .genesis hworld⟩
    intro s m hs hm
    exact ⟨hs.1.next hR hL.toLawful hm, hs.2.next hR hL hs.1 hm⟩
  obtain ⟨hs, hl⟩ := hinvariant
  refine ⟨hl.collator, hl.delegator, ?_⟩
  intro a
  cases hD : s.delegatorState.get a with
  | none => exact .inr rfl
  | some D => exact .inl (hs.apart a D hD)

section Witness
open Staking.Sample

theorem locks_exact_crowded : LocksExact (after crowded) := by
  apply locks_exact runtime_proper.placed (runtime_locking 1) (fun _ _ => rfl)
  exact Run.play (by simp [crowded, trace, user, Move.Permitted])

/-- Account 3 keeps a delegation of nothing to account 1 when its state goes with account 2. It
delegates to account 5, and then account 1 leaves. -/
def unlocked : List (Move (runtime 0)) :=
  stub ++ [user 5 (.joinCandidates 10 1), user 3 (.delegate (5 : ℕ) 7 0 0),
    user 1 (.scheduleLeaveCandidates 2), .block 20, user 4 (.executeLeaveCandidates (1 : ℕ) 1)]

/-- Account 3 has 7 staked, and no lock. -/
theorem lock_lost : ¬ ∀ R : Runtime, R.Locking → ∀ world : R.World,
    (∀ id a, R.lock world id a = none) → ∀ (tr : List (State R × Move R)) (s : State R),
    LawfulRuns (State.genesis world) tr s → LocksExact s := by
  intro h
  have hrun : LawfulRuns (start 0) (trace Move.next (start 0) unlocked) (after unlocked) :=
    Run.play (by simp [unlocked, stub, trace, user, Move.Permitted])
  have hexact := h (runtime 0) (runtime_locking 0) _ (fun _ _ => rfl) _ _ hrun
  have hlock := hexact.delegator (3 : ℕ)
  have hnone : (runtime 0).lock (after unlocked).world .delegator (3 : ℕ) = none := by
    decide +kernel
  have htotal : ((after unlocked).delegatorState.get (3 : ℕ)).elim 0 Delegator.total = 7 := by
    decide +kernel
  rw [hnone, htotal] at hlock
  cases hlock

end Witness
end Staking
end ZkNft
