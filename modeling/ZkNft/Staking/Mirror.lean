import ZkNft.Staking.Pool
import ZkNft.Staking.Soundness

/-! The metadata of a candidate against its lists, along a run. -/

namespace ZkNft
namespace Staking
open Keyed StorageMap

variable {R : Runtime}

section Effects
variable {s s' : State R} (hL : R.Lawful)

include hL in
/-- Every accepted call but a decrease keeps the totals of the top lists. -/
theorem Effect.topsExact (h : Effect s s') (hs : Sound s) (hs' : Sound s') (ht : TopsExact s) :
    TopsExact s' := by
  have hfits := hs'.fits hL
  cases h with
  | quiet => exact ht
  | edit => exact ht
  | bondMore => exact ht
  | bondLess => exact ht
  | join =>
    have hempty : (Delegations.empty : Delegations R.Account).Exact := rfl
    exact forall_insert hempty fun b list _ hlist => ht b list hlist
  | leave => exact forall_remove fun b list _ hlist => ht b list hlist
  | @delegate c d a m m' top bottom less s₁ D hm htop hbottom hadded =>
    obtain ⟨o, bottom₀, s₀, -, w, hstored, -⟩ := hadded.rework htop hbottom hm
    have hstake : w.result.stake c ≤ maxBalance := by
      have hle := hfits c
      have hinfo : s.candidateInfo.insert c m' = w.result.candidateInfo := hstored.info
      have htops : s₁.topDelegations = w.result.topDelegations := hstored.top
      have hbottoms : s₁.bottomDelegations = w.result.bottomDelegations := hstored.bottom
      rw [State.stake, hinfo, htops, hbottoms] at hle
      exact hle
    have hexact := w.topsExact ht hstake
    unfold TopsExact at hexact
    rw [← hstored.top] at hexact
    exact hexact
  | increase _ w => exact w.topsExact ht (hfits _)
  | rerequest => exact ht
  | revoke w => exact w.topsExact ht (hfits _)
  | leaveDelegators _ hleft => exact hleft.topsExact (hs.fits hL) ht

include hL in
theorem Decreased.topsExact {c d : R.Account} {a less : ℕ} (h : Decreased s s' c d a less)
    (hs' : Sound s') (ht : TopsExact s) : TopsExact s' := by
  have hfits := hs'.fits hL
  obtain ⟨w, D, -, -, -, -, -, rfl⟩ := h.out
  exact w.topsExact ht (hfits c)

end Effects

section Moves
variable {s : State R} (hR : R.Placed) (hL : R.Lawful)

include hR hL in
theorem TopsExact.next (hs : Sound s) {m : Move R} (hm : m.Permitted s) (ht : TopsExact s) :
    TopsExact (m.next s) := by
  have hs' := hs.next hR hL hm
  cases m with
  | call origin call =>
    by_cases hok : ∃ u, (call.dispatch origin s).1 = .ok u
    · obtain ⟨u, hu⟩ := hok
      rcases call.dispatch_effect hR hs.books hL.free_le (Prod.ext hu rfl) with
        h | ⟨_, _, _, _, _, _, h⟩
      · exact h.topsExact hL hs hs' ht
      · exact h.topsExact hL hs' ht
    · show TopsExact (call.dispatch origin s).2
      rw [Call.dispatch_rollback fun u hu => hok ⟨u, hu⟩]
      exact ht
  | block now => exact ht
  | other world => exact ht

/-- What the metadata of the candidates is kept for. -/
structure Cached (s : State R) : Prop where
  sound : Sound s
  topsExact : TopsExact s
  counted : Counted s

theorem Cached.genesis (world : R.World) : Cached (State.genesis world) := by
  refine ⟨.genesis world, ?_, ?_⟩
  · intro c list hlist
    cases hlist
  · intro c m hm
    cases hm

include hR hL in
theorem Cached.next (hs : Cached s) {m : Move R} (hm : m.Permitted s) : Cached (m.next s) :=
  ⟨hs.sound.next hR hL hm, hs.topsExact.next hR hL hs.sound hm,
    (Move.next_restakes s m).counted hL hs.sound hs.topsExact hs.counted⟩

include hR hL in
theorem LawfulRuns.cached {world : R.World} {tr : List (State R × Move R)}
    (h : LawfulRuns (State.genesis world) tr s) : Cached s :=
  h.invariant (.genesis world) fun _ _ hs hm => hs.next hR hL hm

end Moves

/-- The metadata of a candidate says of its lists what is so, and the lists are in order. -/
structure Mirrored (R : Runtime) (m : CandidateMetadata) (top bottom : Delegations R.Account) :
    Prop extends Mirrors R m top bottom where
  top_sorted : Descending top.delegations
  bottom_sorted : Descending bottom.delegations
  full : bottom.delegations ≠ [] → top.delegations.length = R.maxTopDelegationsPerCandidate
  above : bottom.highestDelegationAmount ≤ top.lowestDelegationAmount
  totalCounted : m.totalCounted = m.bond + amounts top.delegations

/-- In every state reached, the metadata of each candidate mirrors its lists. -/
theorem metadata_mirrored (hR : R.Placed) (hL : R.Lawful) {world : R.World}
    {tr : List (State R × Move R)} {s : State R} (h : LawfulRuns (State.genesis world) tr s)
    (c : R.Account) (m : CandidateMetadata) (hm : s.candidateInfo.get c = some m) :
    ∃ top bottom, s.topDelegations.get c = some top ∧ s.bottomDelegations.get c = some bottom ∧
      Mirrored R m top bottom := by
  have hs := h.cached hR hL
  obtain ⟨top, bottom, htop, hbottom, hr, hmirrors⟩ := hs.sound.books.candidates.lists hm
  refine ⟨top, bottom, htop, hbottom, hmirrors, hr.top_sorted, hr.bottom_sorted, hr.full, ?_, ?_⟩
  · cases hhead : bottom.delegations.head? with
    | none =>
      rw [Delegations.highestDelegationAmount, hhead]
      exact Nat.zero_le _
    | some x =>
      obtain ⟨_, _, hle⟩ := hmirrors.bottom_facts hR hr (List.mem_of_head? hhead)
      rw [hmirrors.highestBottom, hmirrors.lowestTop] at hle
      exact hle
  · obtain ⟨top', htop', hcount⟩ := hs.counted c m hm
    obtain rfl := Option.some.inj (htop.symm.trans htop')
    have htotal : top.total = amounts top.delegations := hs.topsExact c top htop
    rw [hcount, ← htotal]
    exact satAdd_eq (hs.sound.count_le hL hs.topsExact hm htop)

open Staking.Sample in
theorem metadata_mirrored_crowded : ∃ m top bottom,
    (after crowded).topDelegations.get (1 : ℕ) = some top ∧
    (after crowded).bottomDelegations.get (1 : ℕ) = some bottom ∧
    Mirrored (runtime 1) m top bottom := by
  have hinfo : ((after crowded).candidateInfo.get (1 : ℕ)).isSome = true := by decide +kernel
  obtain ⟨m, hm⟩ := Option.isSome_iff_exists.mp hinfo
  have hrun : LawfulRuns (start 1) (trace Move.next (start 1) crowded) (after crowded) :=
    Run.play (by simp [crowded, trace, user, Move.Permitted])
  exact ⟨m, metadata_mirrored runtime_proper.placed (runtime_lawful 1) hrun (1 : ℕ) m hm⟩

end Staking
end ZkNft
