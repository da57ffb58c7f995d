import ZkNft.Staking.Payout
import ZkNft.Staking.Pool
import ZkNft.Staking.Returns

/-! The selection of collators, who all get a snapshot, and the blocks in which it is made. -/

namespace ZkNft
namespace Staking
open Keyed StorageMap

variable {E : Economy}

namespace Storage

theorem mem_computeTopCandidates {s : Storage E} {c : E.Account}
    (hc : c ∈ s.computeTopCandidates) : ∃ x ∈ s.candidatePool, x.owner = c := by
  unfold computeTopCandidates at hc
  obtain ⟨x, hx, hxc⟩ := List.mem_map.mp ((List.perm_insertionSort _ _).mem_iff.mp hc)
  have htake := List.mem_of_mem_take (List.mem_filter.mp hx).1
  exact ⟨x, (List.perm_insertionSort _ _).mem_iff.mp (List.mem_reverse.mp htake), hxc⟩

/-- The storage with other snapshots of round `now`. -/
structure Snapshots (now : ℕ) (s s' : Storage E) : Prop where
  same : ∃ atStake selectedCandidates, s' = { s with atStake, selectedCandidates }
  atStake : ∀ r, r ≠ now → s'.atStake r = s.atStake r

section Snapshots
variable {s s' : Storage E} {now : ℕ}

theorem snapshotAll_ok {accounts : List E.Account} (h : snapshotAll now s accounts = .ok s') :
    Snapshots now s s' := by
  induction accounts generalizing s with
  | nil =>
    obtain rfl := Exec.ok.inj h
    exact ⟨⟨_, _, rfl⟩, fun _ _ => rfl⟩
  | cons c accounts ih =>
    obtain ⟨m, -, h⟩ := Exec.bind_eq_ok.mp h
    obtain ⟨r, -, h⟩ := Exec.bind_eq_ok.mp h
    have hrest := ih h
    obtain ⟨atStake, selected, rfl⟩ := hrest.same
    refine ⟨⟨_, _, rfl⟩, ?_⟩
    intro r' hr
    exact (hrest.atStake r' hr).trans (if_neg hr)

theorem selectTopCandidates_ok (h : s.selectTopCandidates now = .ok s') : Snapshots now s s' := by
  unfold selectTopCandidates at h
  split at h
  · obtain ⟨_, -, h⟩ := Exec.bind_eq_ok.mp h
    obtain rfl := Exec.ok.inj h
    exact ⟨⟨_, _, rfl⟩, fun r hr => if_neg hr⟩
  · obtain ⟨s₁, hall, h⟩ := Exec.bind_eq_ok.mp h
    obtain rfl := Exec.ok.inj h
    have hs := snapshotAll_ok hall
    obtain ⟨atStake, selected, rfl⟩ := hs.same
    exact ⟨⟨_, _, rfl⟩, hs.atStake⟩

end Snapshots

/-- The selected candidates have snapshots of round `r`. -/
def Covers (s : Storage E) (r : ℕ) : Prop :=
  ∀ c ∈ s.selectedCandidates, ∃ x, (s.atStake r).get c = some x

section Total
variable {s : Storage E}

theorem expectSnapshots_total {last : StorageMap E.Account (CollatorSnapshot E.Account)}
    {candidates : List E.Account} (h : ∀ c ∈ candidates, ∃ x, last.get c = some x) :
    expectSnapshots last candidates = .ok ⟨⟩ := by
  induction candidates with
  | nil => rfl
  | cons c candidates ih =>
    have ⟨⟨x, hx⟩, hrest⟩ := List.forall_mem_cons.mp h
    unfold expectSnapshots
    rw [hx]
    exact ih hrest

/-- Candidates get a snapshot each. -/
theorem snapshotAll_total (now : ℕ) {accounts : List E.Account} (hs : CandidatesOk s.toState)
    (h : ∀ c ∈ accounts, ∃ m, s.candidateInfo.get c = some m) : ∃ s',
    snapshotAll now s accounts = .ok s' ∧
      (∀ c, (∃ x, (s.atStake now).get c = some x) → ∃ x, (s'.atStake now).get c = some x) ∧
      ∀ c ∈ accounts, ∃ x, (s'.atStake now).get c = some x := by
  induction accounts generalizing s with
  | nil => exact ⟨s, rfl, fun _ h => h, by simp⟩
  | cons c accounts ih =>
    have ⟨⟨m, hm⟩, hrest⟩ := List.forall_mem_cons.mp h
    obtain ⟨top, bottom, htop, -⟩ := hs.lists hm
    unfold snapshotAll getRewardableDelegators
    rw [hm, htop]
    let counted := countDelegations (s.delegationScheduledRequests c) 0 top.delegations
    let snapshot : CollatorSnapshot E.Account := ⟨m.bond, counted.2, m.totalCounted - counted.1⟩
    let s₁ : Storage E := { s with atStake := fun r =>
      if r = now then (s.atStake r).insert c snapshot else s.atStake r }
    obtain ⟨s', hrun, hkeep, hall⟩ := ih (s := s₁) hs hrest
    have hnow : s₁.atStake now = (s.atStake now).insert c snapshot := if_pos rfl
    have hself : ∃ x, (s₁.atStake now).get c = some x := by
      rw [hnow]
      exact ⟨_, get_insert_self _ _ _⟩
    refine ⟨s', hrun, ?_, List.forall_mem_cons.mpr ⟨hkeep c hself, hall⟩⟩
    intro b ⟨x, hx⟩
    apply hkeep b
    rw [hnow]
    by_cases hb : b = c
    · rw [hb]
      exact ⟨_, get_insert_self _ _ _⟩
    · rw [get_insert_of_ne _ _ hb]
      exact ⟨x, hx⟩

/-- The selection goes through, and every selected candidate has a snapshot after it. -/
theorem selectTopCandidates_total (now : ℕ) (hs : CandidatesOk s.toState)
    (hpool : PoolExact s.candidatePool s.candidateInfo) (hcovers : s.Covers (now - 1)) :
    ∃ s', s.selectTopCandidates now = .ok s' ∧ s'.Covers now := by
  have hcandidate : ∀ c ∈ s.computeTopCandidates, ∃ m, s.candidateInfo.get c = some m := by
    intro c hc
    obtain ⟨x, hx, rfl⟩ := mem_computeTopCandidates hc
    obtain ⟨m, hm, -⟩ := (hpool.mem_iff x).mp hx
    exact ⟨m, hm⟩
  unfold selectTopCandidates
  split
  · rw [expectSnapshots_total hcovers]
    refine ⟨_, rfl, ?_⟩
    intro c hc
    obtain ⟨x, hx⟩ := hcovers c hc
    have hnow : (s.repeatSnapshots now).atStake now = ⟨fun account =>
        ((s.atStake (now - 1)).get account).or ((s.atStake now).get account)⟩ := if_pos rfl
    rw [hnow]
    refine ⟨x, ?_⟩
    show ((s.atStake (now - 1)).get c).or _ = _
    rw [hx]
    rfl
  · rename_i hne
    obtain ⟨s', hrun, -, hall⟩ := snapshotAll_total now hs hcandidate
    rw [hrun]
    exact ⟨_, rfl, hall⟩

end Total
section Opened
variable {s s' : Storage E} {n : ℕ}

/-- The hook of block `n`, which may begin a round. -/
inductive Opened (s : Storage E) (n : ℕ) : Storage E → Prop where
  | same (h : s.round.shouldUpdate n = false) :
    Opened s n (s.handleDelayedPayouts s.round.current)
  | begins {s₁ : Storage E} (h : s.round.shouldUpdate n = true)
    (hselect : (s.prepareStakingPayouts (s.round.current + 1)).selectTopCandidates
      (s.round.current + 1) = .ok s₁) :
    Opened s n (Storage.handleDelayedPayouts { s₁ with
      round := s.round.update n
      staked := s₁.staked.insert (s.round.current + 1) s₁.total } (s.round.current + 1))

theorem onInitialize_ok (h : s.onInitialize n = .ok s') : Opened s n s' := by
  unfold onInitialize at h
  by_cases hnew : s.round.shouldUpdate n = true
  · rw [if_pos hnew] at h
    obtain ⟨s₁, hselect, h⟩ := Exec.bind_eq_ok.mp h
    obtain rfl := Exec.ok.inj h
    exact .begins hnew hselect
  · rw [if_neg hnew] at h
    obtain rfl := Exec.ok.inj h
    exact .same (Bool.eq_false_of_not_eq_true hnew)

end Opened

end Storage
end Staking
end ZkNft
