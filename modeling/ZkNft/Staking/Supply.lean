import ZkNft.Staking.Agreement

/-! The stakes of all candidates are covered by the currency. -/

namespace ZkNft
namespace Staking
open Keyed StorageMap

variable {R : Runtime}

/-- A pending decrease of a bond leaves something of it. -/
def LessFits (candidates : StorageMap R.Account CandidateMetadata) : Prop :=
  ∀ c m r, candidates.get c = some m → m.request = some r → r.amount < m.bond

/-- Nobody is a candidate and a delegator. -/
def Apart (candidates : StorageMap R.Account CandidateMetadata)
    (delegators : StorageMap R.Account (Delegator R.Account)) : Prop :=
  ∀ d D, delegators.get d = some D → candidates.get d = none

/-- What holds besides the books between calls: stakes are covered, a pending decrease of a bond
leaves something of it, and no candidate is a delegator. -/
structure Sound (s : State R) : Prop where
  books : Books s
  backed : Backed s
  less : LessFits s.candidateInfo
  apart : Apart s.candidateInfo s.delegatorState

theorem Runtime.Lawful.free_le (hL : R.Lawful) (w : R.World) (a : R.Account) :
    R.freeBalance w a ≤ maxBalance := by
  have h := hL.issuance w {a}
  rw [Finset.sum_singleton] at h
  exact h

section Counting
variable {A : Type} [DecidableEq A] {l : List (Bond A)} {x : Bond A} {k : A}

/-- The amount of the entry of `k`, if there is one. -/
def amountFor (k : A) (l : List (Bond A)) : ℕ :=
  (l.find? fun x => x.owner = k).elim 0 Bond.amount

theorem amountFor_none (h : ∀ x ∈ l, x.owner ≠ k) : amountFor k l = 0 := by
  have hnone : (l.find? fun x => x.owner = k) = none :=
    List.find?_eq_none.mpr fun x hx => by simpa using h x hx
  rw [amountFor, hnone]
  rfl

theorem amountFor_cons :
    amountFor k (x :: l) = if x.owner = k then x.amount else amountFor k l := by
  unfold amountFor
  rw [List.find?_cons]
  by_cases hx : x.owner = k
  · simp [hx]
  · simp [hx]

theorem amountFor_of_mem (h : OneEach l) (hx : x ∈ l) : amountFor x.owner l = x.amount := by
  induction l with
  | nil => cases hx
  | cons y l ih =>
    have ⟨hne, hl⟩ := distinct_cons.mp h
    rw [amountFor_cons]
    rcases List.mem_cons.mp hx with rfl | hx
    · exact if_pos rfl
    · rw [if_neg (hne x hx).symm]
      exact ih hl hx

/-- A list is summed over its owners. -/
theorem amounts_eq_sum (h : OneEach l) {owners : Finset A} (hmem : ∀ x ∈ l, x.owner ∈ owners) :
    amounts l = ∑ k ∈ owners, amountFor k l := by
  induction l with
  | nil => simp [amountFor]
  | cons x l ih =>
    have ⟨hne, hl⟩ := distinct_cons.mp h
    have ⟨hx, hrest⟩ := List.forall_mem_cons.mp hmem
    have hzero : amountFor x.owner l = 0 := amountFor_none hne
    have hself : amountFor x.owner (x :: l) = x.amount := amountFor_cons.trans (if_pos rfl)
    have hsum := sum_change (f := fun k => amountFor k l) (g := fun k => amountFor k (x :: l)) hx
      fun k hk => amountFor_cons.trans (if_neg hk.symm)
    have hrec := ih hl hrest
    rw [amounts_cons]
    omega

end Counting

section Bound
variable {s : State R}

/-- Both books have the same amount between two accounts. -/
theorem Books.amountFor_eq (hs : Books s) (c d : R.Account) :
    amountFor d (s.delegationsTo c) = amountFor c (s.delegationsOf d) := by
  have hto := hs.candidates.oneEach c
  by_cases hin : ∃ a, ⟨d, a⟩ ∈ s.delegationsTo c
  · obtain ⟨a, ha⟩ := hin
    have hof := (hs.agree c d a).mp ha
    obtain ⟨D, hD, hmem⟩ := delegator_of_mem hof
    rw [delegationsOf_eq hD]
    exact (amountFor_of_mem hto ha).trans
      (amountFor_of_mem (hs.delegators d D hD).ordered.oneEach hmem).symm
  · have hnone : ∀ x ∈ s.delegationsTo c, x.owner ≠ d := by
      intro x hx hxd
      rw [← hxd] at hin
      exact hin ⟨x.amount, hx⟩
    have hnone' : ∀ x ∈ s.delegationsOf d, x.owner ≠ c := by
      intro x hx hxc
      rw [← hxc] at hin
      exact hin ⟨x.amount, (hs.agree x.owner d x.amount).mpr hx⟩
    rw [amountFor_none hnone, amountFor_none hnone']

theorem amountFor_le (l : List (Bond R.Account)) (h : OneEach l) (owners : Finset R.Account) :
    ∑ k ∈ owners, amountFor k l ≤ amounts l := by
  have hall : ∀ x ∈ l, x.owner ∈ owners ∪ (l.map Bond.owner).toFinset := by
    intro x hx
    rw [Finset.mem_union, List.mem_toFinset]
    exact .inr (List.mem_map_of_mem hx)
  rw [amounts_eq_sum h hall]
  exact Finset.sum_le_sum_of_subset Finset.subset_union_left

/-- All stakes together are within the issuance: the bonds are on the candidates, the delegations on
other accounts. -/
theorem Sound.stakes_le (hL : R.Lawful) (hs : Sound s) {candidates : Finset R.Account}
    (hc : ∀ c ∈ candidates, s.candidateInfo.containsKey c = true) :
    ∑ c ∈ candidates, s.stake c ≤ maxBalance := by
  have hbooks := hs.books
  let owners := candidates.biUnion fun c => ((s.delegationsTo c).map Bond.owner).toFinset
  have howners : ∀ c ∈ candidates, ∀ x ∈ s.delegationsTo c, x.owner ∈ owners := by
    intro c hc x hx
    rw [Finset.mem_biUnion]
    exact ⟨c, hc, List.mem_toFinset.mpr (List.mem_map_of_mem hx)⟩
  have hdelegator : ∀ d ∈ owners, ∃ D, s.delegatorState.get d = some D := by
    intro d hd
    obtain ⟨c, _, hd⟩ := Finset.mem_biUnion.mp hd
    obtain ⟨x, hx, rfl⟩ := List.mem_map.mp (List.mem_toFinset.mp hd)
    obtain ⟨D, hD, _⟩ := delegator_of_mem ((hbooks.agree c x.owner x.amount).mp hx)
    exact ⟨D, hD⟩
  have hbonds : ∑ c ∈ candidates, (s.candidateInfo.get c).elim 0 CandidateMetadata.bond ≤
      ∑ c ∈ candidates, R.freeBalance s.world c := by
    apply Finset.sum_le_sum
    intro c _
    cases hm : s.candidateInfo.get c with
    | none => exact Nat.zero_le _
    | some m => exact (hs.backed.candidate c m hm).free
  have hdelegations : ∑ c ∈ candidates, amounts (s.delegationsTo c) ≤
      ∑ d ∈ owners, R.freeBalance s.world d := by
    calc ∑ c ∈ candidates, amounts (s.delegationsTo c)
      _ = ∑ c ∈ candidates, ∑ d ∈ owners, amountFor d (s.delegationsTo c) := by
        apply Finset.sum_congr rfl
        intro c hc
        exact amounts_eq_sum (hbooks.candidates.oneEach c) (howners c hc)
      _ = ∑ d ∈ owners, ∑ c ∈ candidates, amountFor c (s.delegationsOf d) := by
        rw [Finset.sum_comm]
        simp only [hbooks.amountFor_eq]
      _ ≤ ∑ d ∈ owners, R.freeBalance s.world d := by
        apply Finset.sum_le_sum
        intro d hd
        obtain ⟨D, hD⟩ := hdelegator d hd
        have hok := hbooks.delegators d D hD
        have hfree := (hs.backed.delegator d D hD).free
        have hle := amountFor_le D.delegations hok.ordered.oneEach candidates
        rw [delegationsOf_eq hD]
        rw [hok.total] at hfree
        omega
  have hdisjoint : Disjoint candidates owners := by
    rw [Finset.disjoint_left]
    intro a ha hao
    obtain ⟨D, hD⟩ := hdelegator a hao
    obtain ⟨m, hm⟩ := containsKey_iff.mp (hc a ha)
    rw [hs.apart a D hD] at hm
    cases hm
  have hissuance := hL.issuance s.world (candidates ∪ owners)
  rw [Finset.sum_union hdisjoint] at hissuance
  simp only [stake_eq, Finset.sum_add_distrib]
  omega

theorem Sound.fits (hL : R.Lawful) (hs : Sound s) : Fits s := by
  intro c
  cases hm : s.candidateInfo.get c with
  | some m =>
    have hone : ∀ b ∈ ({c} : Finset R.Account), s.candidateInfo.containsKey b = true := by
      intro b hb
      rw [Finset.mem_singleton.mp hb]
      exact containsKey_iff.mpr ⟨m, hm⟩
    have hle := hs.stakes_le hL hone
    rw [Finset.sum_singleton] at hle
    exact hle
  | none =>
    have hlists := hs.books.candidates c
    rw [hm] at hlists
    rw [State.stake, hm]
    generalize s.topDelegations.get c = top at hlists ⊢
    generalize s.bottomDelegations.get c = bottom at hlists ⊢
    cases hlists
    exact Nat.zero_le _

end Bound
end Staking
end ZkNft
