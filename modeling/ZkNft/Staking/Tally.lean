import Mathlib.Algebra.BigOperators.Group.Finset.Basic
import Mathlib.Algebra.Order.BigOperators.Group.Finset
import ZkNft.Staking.Books

/-! The totals of the lists and the total of the pallet against what they count. -/

namespace ZkNft
namespace Staking
open Keyed StorageMap

variable {R : Runtime}

/-- The bond of a candidate and the delegations to it. -/
def stakeOf (info : Option CandidateMetadata) (top bottom : Option (Delegations R.Account)) : ℕ :=
  info.elim 0 CandidateMetadata.bond +
    (amounts (top.elim [] Delegations.delegations) +
      amounts (bottom.elim [] Delegations.delegations))

/-- Each list has the total of its entries, and `total` is that of all stakes. -/
structure Tally (candidateInfo : StorageMap R.Account CandidateMetadata)
    (topDelegations bottomDelegations : StorageMap R.Account (Delegations R.Account))
    (total : ℕ) : Prop where
  top : ∀ c list, topDelegations.get c = some list → list.Exact
  bottom : ∀ c list, bottomDelegations.get c = some list → list.Exact
  total : ∃ candidates : Finset R.Account,
    (∀ c, c ∈ candidates ↔ candidateInfo.containsKey c = true) ∧
    total = ∑ c ∈ candidates,
      stakeOf (candidateInfo.get c) (topDelegations.get c) (bottomDelegations.get c)

abbrev Tallied (s : State R) : Prop :=
  Tally s.candidateInfo s.topDelegations s.bottomDelegations s.total

def State.stake (s : State R) (c : R.Account) : ℕ :=
  stakeOf (s.candidateInfo.get c) (s.topDelegations.get c) (s.bottomDelegations.get c)

/-- Each top list has the total of its entries. -/
def TopsExact (s : State R) : Prop := ∀ c list, s.topDelegations.get c = some list → list.Exact

/-- No stake is above what a balance can be. -/
def Fits (s : State R) : Prop := ∀ c, s.stake c ≤ maxBalance

theorem stake_eq (s : State R) (c : R.Account) : s.stake c =
    (s.candidateInfo.get c).elim 0 CandidateMetadata.bond + amounts (s.delegationsTo c) := by
  rw [State.stake, stakeOf, State.delegationsTo, amounts_append]

/-- A sum in which one term changes. -/
theorem sum_change {A : Type} [DecidableEq A] {l : Finset A} {f g : A → ℕ} {c : A} (hc : c ∈ l)
    (h : ∀ b, b ≠ c → g b = f b) : ∑ b ∈ l, g b + f c = ∑ b ∈ l, f b + g c := by
  have hrest : ∑ b ∈ l.erase c, g b = ∑ b ∈ l.erase c, f b := by
    apply Finset.sum_congr rfl
    intro b hb
    exact h b (Finset.ne_of_mem_erase hb)
  have hf := Finset.add_sum_erase l f hc
  have hg := Finset.add_sum_erase l g hc
  omega

section
variable {s : State R} {c : R.Account} {m : CandidateMetadata}

theorem Tally.stake_le (h : Tallied s) (hm : s.candidateInfo.get c = some m) :
    s.stake c ≤ s.total := by
  obtain ⟨cs, hcs, htotal⟩ := h.total
  have hc := (hcs c).mpr (containsKey_iff.mpr ⟨m, hm⟩)
  rw [htotal]
  exact Finset.single_le_sum (f := s.stake) (fun _ _ => Nat.zero_le _) hc

end

namespace Rework
variable {s : State R} {c : R.Account} {o n : List (Bond R.Account)} (w : Rework s c o n)

theorem stake_self : w.result.stake c + amounts o = s.stake c + amounts n := by
  have hinfo : w.result.candidateInfo.get c = some w.after := get_insert_self _ _ _
  have hsum := w.exchange.sum Bond.amount
  have hbond := w.relists.bond
  rw [stake_eq, stake_eq, hinfo, w.info]
  unfold amounts
  simp only [Option.elim_some]
  omega

theorem stake_other {b : R.Account} (hb : b ≠ c) : w.result.stake b = s.stake b := by
  have hinfo : w.result.candidateInfo.get b = s.candidateInfo.get b := get_insert_of_ne _ _ hb
  rw [stake_eq, stake_eq, hinfo, w.delegationsTo_other hb]

theorem containsKey {b : R.Account} : w.result.candidateInfo.containsKey b = true ↔
    s.candidateInfo.containsKey b = true := by
  have hiff : w.result.candidateInfo.containsKey b = true ↔ b = c ∨ _ := containsKey_insert _ _ _ _
  rw [hiff]
  constructor
  · rintro (rfl | h)
    · exact containsKey_iff.mpr ⟨_, w.info⟩
    · exact h
  · exact .inr

/-- The total of the top list goes with its entries. -/
theorem topsExact (h : TopsExact s) (hfits : w.result.stake c ≤ maxBalance) :
    TopsExact w.result := by
  rw [stake_eq, w.delegationsTo_self, amounts_append] at hfits
  have hexact : w.top'.Exact := w.relists.top_exact (by omega) (h c w.top w.getTop)
  exact forall_insert hexact fun b list _ hlist => h b list hlist

/-- A change that counts what goes and what comes keeps the totals. -/
theorem tallied {t : ℕ} (h : Tallied s) (hfits : w.result.stake c ≤ maxBalance)
    (hbottom : StaysExact w.bottom w.bottom') (ht : t + amounts o = s.total + amounts n) :
    Tallied { w.result with total := t } := by
  refine ⟨w.topsExact h.top hfits, ?_, ?_⟩
  · rw [stake_eq, w.delegationsTo_self, amounts_append] at hfits
    have hexact : w.bottom'.Exact := hbottom (by omega) (h.bottom c w.bottom w.getBottom)
    exact forall_insert hexact fun b list _ hlist => h.bottom b list hlist
  · obtain ⟨cs, hcs, htotal⟩ := h.total
    refine ⟨cs, fun b => (hcs b).trans w.containsKey.symm, ?_⟩
    have hc := (hcs c).mpr (containsKey_iff.mpr ⟨_, w.info⟩)
    have hsum := sum_change hc fun b hb => w.stake_other hb
    have hself := w.stake_self
    have htotal' : s.total = ∑ b ∈ cs, s.stake b := htotal
    show t = ∑ b ∈ cs, w.result.stake b
    omega

end Rework
end Staking
end ZkNft
