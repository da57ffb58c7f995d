import ZkNft.Staking.Tally

/-! The loop that takes all delegations of a leaving delegator off their candidates. -/

namespace ZkNft
namespace Staking
open Keyed StorageMap

variable {R : Runtime}

/-- The state with other candidates. -/
def State.reworked (s : State R) (candidateInfo : StorageMap R.Account CandidateMetadata)
    (topDelegations bottomDelegations : StorageMap R.Account (Delegations R.Account))
    (candidatePool : List (Bond R.Account)) (total : ℕ) : State R :=
  { s with candidateInfo, topDelegations, bottomDelegations, candidatePool, total }

/-- The delegations of `d` are off the candidates `cs`, whose bonds stay. -/
structure Left (s s' : State R) (d : R.Account) (cs : List R.Account) : Prop where
  candidates : CandidatesOk s'
  mem_delegationsTo : ∀ c x, x ∈ s'.delegationsTo c ↔
    x ∈ s.delegationsTo c ∧ ¬ (c ∈ cs ∧ x.owner = d)
  stake_le : ∀ c, s'.stake c ≤ s.stake c
  info : ∀ c m', s'.candidateInfo.get c = some m' → ∃ m, s.candidateInfo.get c = some m ∧
    m'.bond = m.bond ∧ m'.request = m.request
  keys : ∀ c, s'.candidateInfo.get c = none → s.candidateInfo.get c = none
  tallied : Fits s → Tallied s → Tallied s'
  topsExact : Fits s → TopsExact s → TopsExact s'

namespace Left
variable {s s₁ s' : State R} {c d : R.Account} {cs cs' : List R.Account} {a : ℕ}

theorem refl (hs : CandidatesOk s) : Left s s d [] :=
  ⟨hs, by simp, fun _ => Nat.le_refl _, fun _ m' hm => ⟨m', hm, rfl, rfl⟩, fun _ h => h,
    fun _ h => h, fun _ h => h⟩

theorem append (h : Left s s₁ d cs) (h' : Left s₁ s' d cs') : Left s s' d (cs ++ cs') := by
  have hfits : Fits s → Fits s₁ := fun hfits c => Nat.le_trans (h.stake_le c) (hfits c)
  refine ⟨h'.candidates, ?_, fun c => Nat.le_trans (h'.stake_le c) (h.stake_le c), ?_,
    fun c hc => h.keys c (h'.keys c hc), fun hs ht => h'.tallied (hfits hs) (h.tallied hs ht),
    fun hs ht => h'.topsExact (hfits hs) (h.topsExact hs ht)⟩
  · intro c x
    rw [h'.mem_delegationsTo, h.mem_delegationsTo, List.mem_append]
    tauto
  · intro c m' hm'
    obtain ⟨m₁, hm₁, hbond, hrequest⟩ := h'.info c m' hm'
    obtain ⟨m, hm, hbond', hrequest'⟩ := h.info c m₁ hm₁
    exact ⟨m, hm, hbond.trans hbond', hrequest.trans hrequest'⟩

/-- One candidate. -/
theorem rework (w : Rework s c [⟨d, a⟩] []) (hs : CandidatesOk s)
    (hexact : StaysExact w.bottom w.bottom') :
    Left s { w.result with total := s.total - a } d [c] := by
  have hself : w.result.stake c + a = s.stake c := w.stake_self
  have hle : ∀ b, w.result.stake b ≤ s.stake b := by
    intro b
    by_cases hb : b = c
    · rw [hb]
      omega
    · exact Nat.le_of_eq (w.stake_other hb)
  refine ⟨w.candidatesOk hs, ?_, hle, ?_, ?_, ?_, ?_⟩
  · intro b x
    have hstored : w.Stored { w.result with total := s.total - a } := ⟨rfl, rfl, rfl⟩
    rw [hstored.mem_delegationsTo hs]
    simp [eq_comm]
  · exact forall_insert (v := w.after) ⟨w.before, w.info, w.relists.bond, w.relists.request⟩
      fun b m' _ hm' => ⟨m', hm', rfl, rfl⟩
  · intro b hb
    by_cases hbc : b = c
    · rw [hbc] at hb
      have hself : w.result.candidateInfo.get c = _ := get_insert_self _ _ _
      rw [hself] at hb
      cases hb
    · have hother : w.result.candidateInfo.get b = _ := get_insert_of_ne _ _ hbc
      rw [hother] at hb
      exact hb
  · intro hfits htally
    apply w.tallied htally (Nat.le_trans (hle c) (hfits c)) hexact
    have htotal := htally.stake_le w.info
    show s.total - a + a = s.total + 0
    omega
  · exact fun hfits ht => w.topsExact ht (Nat.le_trans (hle c) (hfits c))

end Left

/-- The whole loop. -/
theorem leaveAll_run {s : State R} {d : R.Account} {bonds : List (Bond R.Account)} (hR : R.Placed)
    (hs : CandidatesOk s) (hone : OneEach bonds)
    (hmem : ∀ x ∈ bonds, ⟨d, x.amount⟩ ∈ s.delegationsTo x.owner) :
    ∃ info top bottom pool total,
      leaveAll d bonds s = (.ok ⟨⟩, s.reworked info top bottom pool total) ∧
        Left s (s.reworked info top bottom pool total) d (bonds.map Bond.owner) := by
  induction bonds generalizing s with
  | nil => exact ⟨s.candidateInfo, s.topDelegations, s.bottomDelegations, s.candidatePool, s.total,
      rfl, .refl hs⟩
  | cons x bonds ih =>
    have ⟨hne, hrest⟩ := distinct_cons.mp hone
    have ⟨hx, hbonds⟩ := List.forall_mem_cons.mp hmem
    obtain ⟨w, hrun, hexact⟩ := delegatorLeavesCandidate_run hR hs hx
    have hleft := Left.rework w hs hexact
    have hmem' : ∀ y ∈ bonds, ⟨d, y.amount⟩ ∈
        ({ w.result with total := s.total - x.amount } : State R).delegationsTo y.owner := by
      intro y hy
      rw [hleft.mem_delegationsTo]
      refine ⟨hbonds y hy, ?_⟩
      intro ⟨hyx, _⟩
      exact hne y hy (List.mem_singleton.mp hyx)
    obtain ⟨info, top, bottom, pool, total, hloop, hleft'⟩ := ih hleft.candidates hrest hmem'
    refine ⟨info, top, bottom, pool, total, ?_, hleft.append hleft'⟩
    have hlog : leaveOrLog x.owner d x.amount s =
        (.ok ⟨⟩, { w.result with total := s.total - x.amount }) := by
      unfold leaveOrLog
      rw [Tx.recover, hrun]
    exact (Tx.bind_run_of_ok hlog).trans hloop

end Staking
end ZkNft
