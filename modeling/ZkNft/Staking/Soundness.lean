import ZkNft.Staking.Supply

/-! Every move keeps the stakes covered, as long as the rest of the runtime keeps the locks. -/

namespace ZkNft
namespace Staking
open Keyed StorageMap

variable {R : Runtime}

section Candidates
variable {w : R.World} {candidates : StorageMap R.Account CandidateMetadata}
  {delegators : StorageMap R.Account (Delegator R.Account)} {c d : R.Account}
  {m m' : CandidateMetadata} {D : Delegator R.Account}

theorem LessFits.insert (h : LessFits candidates)
    (hm : ∀ r, m'.request = some r → r.amount < m'.bond) : LessFits (candidates.insert c m') := by
  intro b m₁ r hm₁
  revert b m₁
  apply forall_insert
  · exact hm r
  · intro b m₁ _ hm₁
    exact h b m₁ r hm₁

/-- A candidate with the same bond and the same pending decrease. -/
theorem LessFits.keep (h : LessFits candidates) (hm : candidates.get c = some m)
    (hbond : m'.bond = m.bond) (hrequest : m'.request = m.request) :
    LessFits (candidates.insert c m') := by
  apply h.insert
  intro r hr
  rw [hrequest] at hr
  rw [hbond]
  exact h c m r hm hr

/-- Other metadata with the same bond. -/
theorem Covers.edit (h : Covers w candidates delegators) (hm : candidates.get c = some m)
    (hbond : m'.bond = m.bond) : Covers w (candidates.insert c m') delegators := by
  refine ⟨forall_insert ?_ ?_, h.delegator⟩
  · rw [hbond]
    exact h.candidate c m hm
  · intro b m₁ _ hm₁
    exact h.candidate b m₁ hm₁

variable (hL : R.Lawful)
include hL

/-- A new bond is locked. -/
theorem Covers.setBond (h : Covers w candidates delegators) (hfree : m.bond ≤ R.freeBalance w c) :
    Covers (R.setLock w .collator c m.bond) (candidates.insert c m) delegators := by
  refine ⟨forall_insert (covered_setLock hL hfree) ?_, ?_⟩
  · intro b m₁ hb hm₁
    exact (h.candidate b m₁ hm₁).setLock hL (.inr hb)
  · intro d D hD
    exact (h.delegator d D hD).setLock hL (.inl LockId.noConfusion)

/-- A new total is locked. -/
theorem Covers.setTotal (h : Covers w candidates delegators) (hid : D.id = d)
    (hfree : D.total ≤ R.freeBalance w d) :
    Covers (R.relock w D) candidates (delegators.insert d D) := by
  refine ⟨?_, forall_insert ?_ ?_⟩
  · intro b m hm
    exact (h.candidate b m hm).relock hL (.inl LockId.noConfusion)
  · rw [← hid] at hfree ⊢
    exact covered_relock hL hfree
  · intro b D' hb hD'
    exact (h.delegator b D' hD').relock hL (.inr (hid ▸ hb))

theorem Covers.removeBond (h : Covers w candidates delegators) :
    Covers (R.removeLock w .collator c) (candidates.remove c) delegators := by
  refine ⟨forall_remove ?_, ?_⟩
  · intro b m hb hm
    exact (h.candidate b m hm).removeLock hL (.inr hb)
  · intro d D hD
    exact (h.delegator d D hD).removeLock hL (.inl LockId.noConfusion)

theorem Covers.removeTotal (h : Covers w candidates delegators) (hid : D.id = d) :
    Covers (R.relock w D) candidates (delegators.remove d) := by
  refine ⟨?_, forall_remove ?_⟩
  · intro b m hm
    exact (h.candidate b m hm).relock hL (.inl LockId.noConfusion)
  · intro b D' hb hD'
    exact (h.delegator b D' hD').relock hL (.inr (hid ▸ hb))

end Candidates

section Effects
variable {s s' : State R} (hR : R.Placed) (hL : R.Lawful)

section Apart
variable {candidates candidates' : StorageMap R.Account CandidateMetadata}
  {delegators delegators' : StorageMap R.Account (Delegator R.Account)} {c d : R.Account}

theorem Apart.edit {m m' : CandidateMetadata} (h : Apart candidates delegators)
    (hm : candidates.get c = some m) : Apart (candidates.insert c m') delegators := by
  intro b D hD
  have hnone := h b D hD
  have hb : b ≠ c := (ne_of_get hm hnone).symm
  rw [get_insert_of_ne _ _ hb]
  exact hnone

theorem Apart.join {m : CandidateMetadata} (h : Apart candidates delegators)
    (hd : delegators.get c = none) : Apart (candidates.insert c m) delegators := by
  intro b D hD
  have hb : b ≠ c := ne_of_get hD hd
  rw [get_insert_of_ne _ _ hb]
  exact h b D hD

/-- Fewer candidates and delegators. -/
theorem Apart.shrink (h : Apart candidates delegators)
    (hc : ∀ c, candidates.get c = none → candidates'.get c = none)
    (hd : ∀ d, delegators.get d = none → delegators'.get d = none) :
    Apart candidates' delegators' := by
  intro b D hD
  cases hold : delegators.get b with
  | none =>
    rw [hd b hold] at hD
    cases hD
  | some D₀ => exact hc b (h b D₀ hold)

theorem Apart.insert {D : Delegator R.Account} (h : Apart candidates delegators)
    (hd : delegators.get d = none → candidates.get d = none) :
    Apart candidates (delegators.insert d D) := by
  apply forall_insert
  · cases hold : delegators.get d with
    | none => exact hd hold
    | some D₀ => exact h d D₀ hold
  · intro b D' _ hD'
    exact h b D' hD'

end Apart

section Room
variable {s₁ : State R} {c : R.Account} {bottom bottom₀ : Delegations R.Account}
  {o : List (Bond R.Account)} {less : Option ℕ}

theorem Room.backed (h : Room s c bottom o bottom₀ s₁ less) (hL : R.Lawful) (hb : Backed s) :
    Backed s₁ := by
  cases h with
  | free => exact hb
  | kicked v => exact v.backed hL hb

theorem Room.freeBalance (h : Room s c bottom o bottom₀ s₁ less) (hL : R.Lawful) (b : R.Account) :
    R.freeBalance s₁.world b = R.freeBalance s.world b := by
  cases h with
  | free => rfl
  | kicked v => exact v.free hL b

theorem Room.keys (h : Room s c bottom o bottom₀ s₁ less) {b : R.Account}
    (hb : s.delegatorState.get b = none) : s₁.delegatorState.get b = none := by
  cases h with
  | free => exact hb
  | kicked v => exact v.keys hb

end Room

/-- What is added to a covered stake is free, so the sum is. -/
theorem Covered.add_free {w : R.World} {id : LockId} {a : R.Account} {n more : ℕ}
    (h : Covered w id a n) (hL : R.Lawful) (hfree : more ≤ R.freeBalance w a - n) :
    satAdd n more = n + more ∧ n + more ≤ R.freeBalance w a := by
  have hn := h.free
  have hmax := hL.free_le w a
  have hle : n + more ≤ R.freeBalance w a := by omega
  exact ⟨satAdd_eq (by omega), hle⟩

include hL in
theorem Effect.backed (h : Effect s s') (hs : Sound s) : Backed s' := by
  have hb := hs.backed
  cases h with
  | quiet => exact hb
  | edit _ hm _ hbond => exact hb.edit hm hbond
  | bondMore _ hm hfree _ hbond =>
    have ⟨hadd, hle⟩ := (hb.candidate _ _ hm).add_free hL hfree
    apply hb.setBond hL
    rw [hbond, hadd]
    exact hle
  | bondLess _ hm _ _ hbond =>
    have hfree := (hb.candidate _ _ hm).free
    apply hb.setBond hL
    omega
  | @join c bond world _ _ _ hworld hfree =>
    have hcovers : Covers world s.candidateInfo s.delegatorState := by
      rcases hworld with rfl | hleave
      · exact hb
      · exact ⟨fun b m hm => (hb.candidate b m hm).leaveIntent hL hleave,
          fun d D hD => (hb.delegator d D hD).leaveIntent hL hleave⟩
    exact hcovers.setBond (m := .new bond) hL hfree
  | leave _ _ _ hreturned => exact (hreturned.backed hL hb).removeBond hL
  | delegate hm _ _ hadded _ hD _ hfree =>
    obtain ⟨o, bottom₀, s₁, top', bottom', hroom, rfl, hlists, _⟩ := hadded
    have hb₁ := hroom.backed hL hb
    have hm₁ : s₁.candidateInfo = s.candidateInfo := by
      cases hroom <;> rfl
    rw [← hroom.freeBalance hL] at hfree
    have hcovers := hb₁.setTotal hL hD.id hfree
    rw [hm₁] at hcovers
    exact hcovers.edit hm hlists.bond
  | @increase c d a more D _ w _ hD _ hfree _ =>
    have ⟨hadd, hle⟩ := (hb.delegator _ _ hD).add_free hL hfree
    have hid := (hs.books.delegators _ _ hD).id
    have htotal : satAdd D.total more ≤ R.freeBalance s.world d := by
      rw [hadd]
      exact hle
    exact (hb.edit w.info w.relists.bond).setTotal
      (D := D.changed c (satAdd · more) (satAdd D.total more) D.lessTotal) hL hid htotal
  | @rerequest d D requests l hD =>
    refine ⟨hb.candidate, ?_⟩
    show ∀ b D', (s.delegatorState.insert d _).get b = some D' → _
    exact forall_insert (hb.delegator d D hD) fun b D' _ hD' => hb.delegator b D' hD'
  | revoke w _ v => exact (v.backed hL hb).edit w.info w.relists.bond
  | @leaveDelegators d D info _ _ _ _ _ hD hleft =>
    have hid := (hs.books.delegators _ _ hD).id
    have hcovers : Covers s.world info s.delegatorState := by
      refine ⟨?_, hb.delegator⟩
      intro b m' hm'
      obtain ⟨m, hm, hbond, _⟩ := hleft.info b m' hm'
      rw [hbond]
      exact hb.candidate b m hm
    exact hcovers.removeTotal (D := { D with total := D.total - D.total }) hL hid

include hL in
theorem Effect.less (h : Effect s s') (hs : Sound s) : LessFits s'.candidateInfo := by
  have hless := hs.less
  cases h with
  | quiet => exact hless
  | edit _ hm _ hbond hrequest =>
    apply hless.insert
    intro r hr
    rcases hrequest r hr with hr | hle
    · rw [hbond]
      exact hless _ _ r hm hr
    · exact hle
  | bondMore _ hm hfree _ hbond hrequest =>
    have ⟨hadd, _⟩ := (hs.backed.candidate _ _ hm).add_free hL hfree
    apply hless.insert
    intro r hr
    rw [hrequest] at hr
    rw [hbond, hadd]
    exact Nat.lt_add_right _ (hless _ _ r hm hr)
  | bondLess _ _ _ _ _ hrequest =>
    apply hless.insert
    intro r hr
    rw [hrequest] at hr
    cases hr
  | join =>
    apply hless.insert
    intro r hr
    cases hr
  | @leave c =>
    have hall : ∀ b m, (s.candidateInfo.remove c).get b = some m →
        ∀ r, m.request = some r → r.amount < m.bond :=
      forall_remove fun b m _ hm r => hless b m r hm
    exact fun b m r hm => hall b m hm r
  | delegate hm _ _ hadded =>
    obtain ⟨o, bottom₀, s₁, top', bottom', hroom, rfl, hlists, _⟩ := hadded
    exact hless.keep hm hlists.bond hlists.request
  | increase _ w => exact hless.keep w.info w.relists.bond w.relists.request
  | rerequest => exact hless
  | revoke w => exact hless.keep w.info w.relists.bond w.relists.request
  | leaveDelegators _ hleft =>
    intro b m' r hm' hr
    obtain ⟨m, hm, hbond, hrequest⟩ := hleft.info b m' hm'
    rw [hrequest] at hr
    rw [hbond]
    exact hless b m r hm hr

theorem Effect.apart (h : Effect s s') (hs : Sound s) :
    Apart s'.candidateInfo s'.delegatorState := by
  have hapart := hs.apart
  cases h with
  | quiet => exact hapart
  | edit _ hm => exact hapart.edit hm
  | bondMore _ hm => exact hapart.edit hm
  | bondLess _ hm => exact hapart.edit hm
  | join _ _ hd => exact hapart.join hd
  | @leave c _ _ _ _ _ _ _ _ _ hreturned =>
    apply hapart.shrink
    · intro b hb
      by_cases hbc : b = c
      · rw [hbc]
        exact get_remove_self _ _
      · exact (get_remove_of_ne _ hbc).trans hb
    · exact hreturned.keys
  | @delegate c d a m m' _ _ _ _ D hm _ _ hadded _ _ _ _ _ hnew =>
    obtain ⟨o, bottom₀, s₁, top', bottom', hroom, rfl, _⟩ := hadded
    have hapart₁ : Apart s.candidateInfo s₁.delegatorState :=
      hapart.shrink (fun _ hb => hb) fun _ hb => hroom.keys hb
    have hinsert : Apart s.candidateInfo (s₁.delegatorState.insert d D) := by
      apply hapart₁.insert
      intro _
      cases hD₀ : s.delegatorState.get d with
      | none => exact hnew hD₀
      | some D₀ => exact hapart d D₀ hD₀
    exact hinsert.edit hm
  | increase _ w _ hD =>
    apply (hapart.edit w.info).insert
    intro hnone
    rw [hD] at hnone
    cases hnone
  | rerequest _ hD =>
    apply hapart.insert
    intro hnone
    rw [hD] at hnone
    cases hnone
  | revoke w _ v => exact (hapart.edit w.info).shrink (fun _ hc => hc) fun _ hd => v.keys hd
  | @leaveDelegators d _ info _ _ _ _ _ _ hleft =>
    apply hapart.shrink
    · intro c hc
      cases hinfo : info.get c with
      | none => exact hinfo
      | some m' =>
        obtain ⟨m, hm, _⟩ := hleft.info c m' hinfo
        rw [hc] at hm
        cases hm
    · intro b hb
      by_cases hbd : b = d
      · rw [hbd]
        exact get_remove_self _ _
      · exact (get_remove_of_ne _ hbd).trans hb

include hR hL in
theorem Effect.sound (h : Effect s s') (hs : Sound s) : Sound s' :=
  ⟨h.books hR hL.free_le hs.books, h.backed hL hs, h.less hL hs, h.apart hs⟩

include hL in
theorem Decreased.sound {c d : R.Account} {a less : ℕ} (h : Decreased s s' c d a less)
    (hs : Sound s) : Sound s' := by
  have hbooks := h.books hs.books
  obtain ⟨w, D, hD, -, -, -, -, rfl⟩ := h.out
  have hid := (hs.books.delegators d D hD).id
  have hfree := (hs.backed.delegator d D hD).free
  refine ⟨hbooks, ?_, hs.less.keep w.info w.relists.bond w.relists.request, ?_⟩
  · exact (hs.backed.edit w.info w.relists.bond).setTotal
      (D := D.changed c (· - less) (D.total - less) (D.lessTotal - less)) hL hid
      (Nat.le_trans (Nat.sub_le _ _) hfree)
  · apply (hs.apart.edit w.info).insert
    intro hnone
    rw [hD] at hnone
    cases hnone

end Effects

/-- The rest of the runtime keeps to the locks. -/
def Move.Permitted (s : State R) : Move R → Prop
  | .other world => R.Permits s.world world
  | _ => True

section Moves
variable {s : State R} (hR : R.Placed) (hL : R.Lawful)

theorem Sound.genesis (world : R.World) : Sound (State.genesis world) := by
  refine ⟨.genesis world, ⟨?_, ?_⟩, ?_, ?_⟩
  · intro c m hm
    cases hm
  · intro d D hD
    cases hD
  · intro c m r hm
    cases hm
  · intro d D hD
    cases hD

include hR hL in
theorem Sound.next (hs : Sound s) {m : Move R} (hm : m.Permitted s) : Sound (m.next s) := by
  cases m with
  | call origin call =>
    show Sound (call.dispatch origin s).2
    by_cases hok : ∃ u, (call.dispatch origin s).1 = .ok u
    · obtain ⟨u, hu⟩ := hok
      rcases call.dispatch_effect hR hs.books hL.free_le (Prod.ext hu rfl) with
        h | ⟨_, _, _, _, _, _, h⟩
      · exact h.sound hR hL hs
      · exact h.sound hL hs
    · rw [Call.dispatch_rollback fun u hu => hok ⟨u, hu⟩]
      exact hs
  | block now => exact ⟨hs.books.step hR hL.free_le (.block now), hs.backed, hs.less, hs.apart⟩
  | other world =>
    have hcovers : Backed { s with world } :=
      ⟨fun c m₁ hm₁ => (hs.backed.candidate c m₁ hm₁).permits hm,
        fun d D hD => (hs.backed.delegator d D hD).permits hm⟩
    exact ⟨hs.books.step hR hL.free_le (.other world), hcovers, hs.less, hs.apart⟩

/-- Runs of staking in a runtime that keeps to the locks. -/
abbrev LawfulRuns (s₀ : State R) (tr : List (State R × Move R)) (s : State R) : Prop :=
  Run Move.next Move.Permitted s₀ tr s

include hR hL in
theorem LawfulRuns.sound {world : R.World} {tr : List (State R × Move R)}
    (h : LawfulRuns (State.genesis world) tr s) : Sound s :=
  h.invariant (.genesis world) fun _ _ hs hm => hs.next hR hL hm

end Moves
end Staking
end ZkNft
