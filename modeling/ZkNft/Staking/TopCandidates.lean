import ZkNft.Lib.TopN
import ZkNft.Staking.Panics

/-! The candidates that are selected for a round, and the search among them. -/

namespace ZkNft
namespace Staking
open BinarySearch TopN

variable {E : Economy}

namespace Storage

/-- A binary search in the canonical set of collators. -/
def isSelectedCandidate (s : Storage E) (acc : E.Account) : Bool :=
  (binarySearchBy (fun c => compare c acc) s.selectedCandidates).isOk

section Top
variable (s : Storage E)

/-- The greatest stakes of the pool, and those of them that are enough. -/
def top : List (Bond E.Account) := greatest Bond.amount s.totalSelected s.candidatePool

def qualified : List (Bond E.Account) := s.top.filter fun x => E.minCollatorStk ≤ x.amount

theorem computeTopCandidates_eq :
    s.computeTopCandidates = (s.qualified.map Bond.owner).insertionSort (· ≤ ·) := rfl

theorem computeTopCandidates_perm :
    s.computeTopCandidates.Perm (s.qualified.map Bond.owner) := by
  rw [computeTopCandidates_eq]
  exact List.perm_insertionSort _ _

theorem computeTopCandidates_sorted : s.computeTopCandidates.Pairwise (· ≤ ·) := by
  rw [computeTopCandidates_eq]
  exact List.pairwise_insertionSort _ _

theorem mem_computeTopCandidates_iff (c : E.Account) : c ∈ s.computeTopCandidates ↔
    ∃ x ∈ s.top, x.owner = c ∧ E.minCollatorStk ≤ x.amount := by
  rw [s.computeTopCandidates_perm.mem_iff, List.mem_map]
  constructor
  · intro h
    obtain ⟨x, hx, hc⟩ := h
    obtain ⟨htop, hmin⟩ := List.mem_filter.mp hx
    exact ⟨x, htop, hc, of_decide_eq_true hmin⟩
  · intro h
    obtain ⟨x, htop, hc, hmin⟩ := h
    exact ⟨x, List.mem_filter.mpr ⟨htop, decide_eq_true hmin⟩, hc⟩

theorem computeTopCandidates_length : s.computeTopCandidates.length =
    min s.totalSelected (s.candidatePool.filter fun x => E.minCollatorStk ≤ x.amount).length := by
  rw [s.computeTopCandidates_perm.length_eq, List.length_map]
  exact length_filter_greatest _ _ _ _

theorem splits_top : ∃ rest, Splits Bond.amount s.totalSelected s.candidatePool s.top rest :=
  ⟨_, splits_greatest _ _ _⟩

variable {s} (hpool : OneEach s.candidatePool)
include hpool

theorem computeTopCandidates_nodup : s.computeTopCandidates.Nodup := by
  obtain ⟨rest, hsplits⟩ := s.splits_top
  have howners : (s.candidatePool.map Bond.owner).Nodup := hpool
  have hall := (hsplits.perm.map Bond.owner).nodup_iff.mp howners
  rw [List.map_append] at hall
  have htop : (s.top.map Bond.owner).Nodup := hall.sublist (List.sublist_append_left _ _)
  have hqualified : (s.qualified.map Bond.owner).Nodup :=
    htop.sublist (List.filter_sublist.map Bond.owner)
  exact s.computeTopCandidates_perm.nodup_iff.mpr hqualified

/-- A stake that is enough and is left out is no greater than one that is selected. -/
theorem le_of_not_selected {x y : Bond E.Account} (hx : x ∈ s.candidatePool)
    (hy : y ∈ s.candidatePool) (hselected : x.owner ∈ s.computeTopCandidates)
    (hnot : y.owner ∉ s.computeTopCandidates) (hmin : E.minCollatorStk ≤ y.amount) :
    y.amount ≤ x.amount := by
  obtain ⟨rest, hsplits⟩ := s.splits_top
  obtain ⟨z, htop, howner, -⟩ := (s.mem_computeTopCandidates_iff _).mp hselected
  have hz : z ∈ s.candidatePool := hsplits.perm.mem_iff.mpr (List.mem_append_left _ htop)
  have heq : z = x := hpool.eq_of_key hz hx howner
  have hout : y ∉ s.top := by
    intro hin
    exact hnot ((s.mem_computeTopCandidates_iff _).mpr ⟨y, hin, rfl, hmin⟩)
  rw [heq] at htop
  exact hsplits.le_of_not_mem htop hy hout

end Top

theorem isSelectedCandidate_iff {s : Storage E} (h : s.selectedCandidates.Pairwise (· ≤ ·))
    (acc : E.Account) : s.isSelectedCandidate acc = true ↔ acc ∈ s.selectedCandidates :=
  binarySearchBy_compare h acc

section Selected
variable {s s' : Storage E} {now n : ℕ}

/-- Where nobody is among the greatest stakes, the selected candidates remain. -/
theorem selectTopCandidates_selected (h : s.selectTopCandidates now = .ok s') :
    s'.selectedCandidates =
      if s.computeTopCandidates = [] then s.selectedCandidates else s.computeTopCandidates := by
  unfold selectTopCandidates at h
  split at h
  · rename_i hnone
    obtain ⟨_, -, h⟩ := Exec.bind_eq_ok.mp h
    obtain rfl := Exec.ok.inj h
    exact (if_pos hnone).symm
  · rename_i hsome
    obtain ⟨s₁, -, h⟩ := Exec.bind_eq_ok.mp h
    obtain rfl := Exec.ok.inj h
    exact (if_neg hsome).symm

/-- The selected candidates are in the order of their accounts. -/
def SelectedSorted (s : Storage E) : Prop := s.selectedCandidates.Pairwise (· ≤ ·)

theorem SelectedSorted.select (hs : s.SelectedSorted) (h : s.selectTopCandidates now = .ok s') :
    s'.SelectedSorted := by
  unfold SelectedSorted
  rw [selectTopCandidates_selected h]
  split_ifs
  · exact hs
  · exact s.computeTopCandidates_sorted

theorem SelectedSorted.handled (hs : s.SelectedSorted) (now : ℕ) :
    (s.handleDelayedPayouts now).SelectedSorted := by
  unfold SelectedSorted
  rcases s.handleDelayedPayouts_cases now with ⟨-, h⟩ | ⟨r, -, h⟩
  · rw [h]
    exact hs
  · rw [h.step.selected]
    exact hs

theorem SelectedSorted.opened (hs : s.SelectedSorted) (h : Opened s n s') :
    s'.SelectedSorted := by
  cases h with
  | same => exact hs.handled _
  | @begins s₁ _ hselect =>
    have hprepared : (s.prepareStakingPayouts (s.round.current + 1)).SelectedSorted := by
      obtain ⟨-, -, -, hselected, -⟩ := Steady.prepared s (s.round.current + 1)
      unfold SelectedSorted
      rw [hselected]
      exact hs
    have hselected : s₁.SelectedSorted := hprepared.select hselect
    have hbegun : Storage.SelectedSorted { s₁ with
        round := s.round.update n
        staked := s₁.staked.insert (s.round.current + 1) s₁.total } := hselected
    exact hbegun.handled _

theorem SelectedSorted.next (hs : s.SelectedSorted) {t : Turn E} (h : t.Does s s') :
    s'.SelectedSorted := by
  cases h with
  | opens hrun => exact hs.opened (onInitialize_ok hrun)
  | halts => exact hs
  | calls => exact hs
  | panics => exact hs
  | measures => exact hs
  | moves => exact hs
  | closes => exact hs

theorem SelectedSorted.genesis {config : GenesisConfig E} {world : E.World}
    (h : config.build world = .ok s) : s.SelectedSorted := by
  obtain ⟨stakes, -, hselect⟩ :=
    GenesisConfig.build_ok (I := fun _ => True) (fun _ _ _ _ => trivial) h trivial
  apply SelectedSorted.select _ hselect
  exact List.Pairwise.nil

end Selected
end Storage

/-- In every state reached, the search among the selected candidates is exact. -/
theorem isSelectedCandidate_exact {config : GenesisConfig E} {world : E.World} {s₀ s : Storage E}
    (hbuild : config.build world = .ok s₀) {tr : List (Storage E × Turn E)} (h : Turns s₀ tr s)
    (acc : E.Account) : s.isSelectedCandidate acc = true ↔ acc ∈ s.selectedCandidates := by
  have hsorted : s.SelectedSorted :=
    h.invariant (.genesis hbuild) fun s t hs _ => hs.next (t.does s)
  exact Storage.isSelectedCandidate_iff hsorted acc

/-- The selected candidates are those among the greatest stakes that are enough, in the order of
their accounts, and the search among them is exact. -/
theorem computeTopCandidates_correct (s : Storage E)
    (hpool : (s.candidatePool.map Bond.owner).Nodup) :
    s.computeTopCandidates.Pairwise (· < ·) ∧
    (∃ top rest, s.candidatePool.Perm (top ++ rest) ∧
      top.length = min s.totalSelected s.candidatePool.length ∧
      (∀ x ∈ top, ∀ y ∈ rest, y.amount ≤ x.amount) ∧
      ∀ c, c ∈ s.computeTopCandidates ↔
        ∃ x ∈ top, x.owner = c ∧ E.minCollatorStk ≤ x.amount) ∧
    s.computeTopCandidates.length =
      min s.totalSelected (s.candidatePool.filter fun x => E.minCollatorStk ≤ x.amount).length ∧
    (∀ x ∈ s.candidatePool, ∀ y ∈ s.candidatePool, x.owner ∈ s.computeTopCandidates →
      y.owner ∉ s.computeTopCandidates → E.minCollatorStk ≤ y.amount → y.amount ≤ x.amount) ∧
    ∀ s' : Storage E, s'.selectedCandidates = s.computeTopCandidates →
      ∀ acc, s'.isSelectedCandidate acc = true ↔ acc ∈ s'.selectedCandidates := by
  have hsorted := s.computeTopCandidates_sorted
  refine ⟨?_, ?_, s.computeTopCandidates_length, ?_, ?_⟩
  · have hnodup := Storage.computeTopCandidates_nodup hpool
    exact (hsorted.and hnodup).imp fun h => lt_of_le_of_ne h.1 h.2
  · obtain ⟨rest, hsplits⟩ := s.splits_top
    exact ⟨s.top, rest, hsplits.perm, hsplits.length, hsplits.ge, s.mem_computeTopCandidates_iff⟩
  · intro x hx y hy hselected hnot hmin
    exact Storage.le_of_not_selected hpool hx hy hselected hnot hmin
  · intro s' hset
    exact Storage.isSelectedCandidate_iff (hset ▸ hsorted)

open Staking.Sample in
theorem computeTopCandidates_correct_begun :
    (later 0 begun).computeTopCandidates.length = 1 ∧ ∀ acc : ℕ,
      (later 0 begun).isSelectedCandidate acc = true ↔
        acc ∈ (later 0 begun).selectedCandidates := by
  have hcorrect := computeTopCandidates_correct (later 0 begun) (by decide +kernel)
  constructor
  · rw [hcorrect.2.2.1]
    decide +kernel
  · exact hcorrect.2.2.2.2 (later 0 begun) (by decide +kernel)

end Staking
end ZkNft
