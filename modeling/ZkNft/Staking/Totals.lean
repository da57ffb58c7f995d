import ZkNft.Staking.Soundness

/-! The totals along a run, and the one call that breaks them. -/

namespace ZkNft
namespace Staking
open Keyed StorageMap

variable {R : Runtime}

section Candidates
variable {s : State R} {c : R.Account} {m m' : CandidateMetadata} {t : ℕ}

/-- A candidate's bond and the total of the pallet change together. -/
theorem Tally.setBond (h : Tallied s) (hm : s.candidateInfo.get c = some m)
    (ht : t + m.bond = s.total + m'.bond) :
    Tally (s.candidateInfo.insert c m') s.topDelegations s.bottomDelegations t := by
  refine ⟨h.top, h.bottom, ?_⟩
  obtain ⟨cs, hcs, htotal⟩ := h.total
  have hkey : s.candidateInfo.containsKey c = true := containsKey_iff.mpr ⟨m, hm⟩
  have hc := (hcs c).mpr hkey
  refine ⟨cs, ?_, ?_⟩
  · intro b
    rw [hcs, containsKey_insert]
    constructor
    · exact .inr
    · rintro (rfl | hb)
      · exact hkey
      · exact hb
  · have hother : ∀ b, b ≠ c → stakeOf ((s.candidateInfo.insert c m').get b)
        (s.topDelegations.get b) (s.bottomDelegations.get b) = s.stake b := by
      intro b hb
      rw [get_insert_of_ne _ _ hb]
      rfl
    have hsum := sum_change hc hother
    have hself : s.stake c + m'.bond = m.bond + stakeOf ((s.candidateInfo.insert c m').get c)
        (s.topDelegations.get c) (s.bottomDelegations.get c) := by
      rw [State.stake, get_insert_self, hm, stakeOf, stakeOf]
      simp only [Option.elim_some]
      omega
    have htotal' : s.total = ∑ b ∈ cs, s.stake b := htotal
    omega

/-- A new candidate has its bond and two empty lists. -/
theorem Tally.join {bond : ℕ} (h : Tallied s) (hc : s.candidateInfo.get c = none) :
    Tally (s.candidateInfo.insert c (.new bond)) (s.topDelegations.insert c .empty)
      (s.bottomDelegations.insert c .empty) (s.total + bond) := by
  have hempty : (Delegations.empty : Delegations R.Account).Exact := rfl
  refine ⟨forall_insert hempty fun b list _ hlist => h.top b list hlist,
    forall_insert hempty fun b list _ hlist => h.bottom b list hlist, ?_⟩
  obtain ⟨cs, hcs, htotal⟩ := h.total
  have hnot : c ∉ cs := by
    intro hmem
    obtain ⟨m, hm⟩ := containsKey_iff.mp ((hcs c).mp hmem)
    rw [hc] at hm
    cases hm
  refine ⟨insert c cs, ?_, ?_⟩
  · intro b
    rw [Finset.mem_insert, hcs, containsKey_insert]
  · rw [Finset.sum_insert hnot, get_insert_self, get_insert_self, get_insert_self, htotal,
      Nat.add_comm]
    congr 1
    apply Finset.sum_congr rfl
    intro b hb
    have hne : b ≠ c := fun hbc => hnot (hbc ▸ hb)
    rw [get_insert_of_ne _ _ hne, get_insert_of_ne _ _ hne, get_insert_of_ne _ _ hne]

/-- A candidate that leaves takes its stake along. -/
theorem Tally.leave (h : Tallied s) (hm : s.candidateInfo.get c = some m) :
    Tally (s.candidateInfo.remove c) (s.topDelegations.remove c) (s.bottomDelegations.remove c)
      (s.total - s.stake c) := by
  refine ⟨forall_remove fun b list _ hlist => h.top b list hlist,
    forall_remove fun b list _ hlist => h.bottom b list hlist, ?_⟩
  obtain ⟨cs, hcs, htotal⟩ := h.total
  have hc := (hcs c).mpr (containsKey_iff.mpr ⟨m, hm⟩)
  refine ⟨cs.erase c, ?_, ?_⟩
  · intro b
    rw [Finset.mem_erase, hcs, containsKey_iff, containsKey_iff]
    by_cases hb : b = c
    · rw [hb, get_remove_self]
      simp
    · rw [get_remove_of_ne _ hb]
      simp [hb]
  · have hsplit := Finset.add_sum_erase cs s.stake hc
    have htotal' : s.total = ∑ b ∈ cs, s.stake b := htotal
    have hrest : ∑ b ∈ cs.erase c, stakeOf ((s.candidateInfo.remove c).get b)
        ((s.topDelegations.remove c).get b) ((s.bottomDelegations.remove c).get b) =
        ∑ b ∈ cs.erase c, s.stake b := by
      apply Finset.sum_congr rfl
      intro b hb
      have hne := Finset.ne_of_mem_erase hb
      rw [get_remove_of_ne _ hne, get_remove_of_ne _ hne, get_remove_of_ne _ hne]
      rfl
    rw [hrest]
    omega

end Candidates

section Effects
variable {s s' : State R} {more : ℕ} (hL : R.Lawful)

include hL in
/-- An exact total is within the issuance, so that an addition to it does not saturate. -/
theorem Sound.tallied_add (hs' : Sound s') (htotal : s'.total = satAdd s.total more)
    (h : Tally s'.candidateInfo s'.topDelegations s'.bottomDelegations (s.total + more)) :
    Tallied s' := by
  obtain ⟨cs, hcs, hsum⟩ := h.total
  have hle : s.total + more ≤ maxBalance := by
    rw [hsum]
    exact hs'.stakes_le hL fun c hc => (hcs c).mp hc
  rw [Tallied, htotal, satAdd_eq hle]
  exact h

/-- The delegations that come and go are counted in the total. -/
theorem Tally.delegate {c d : R.Account} {a : ℕ} {m m' : CandidateMetadata}
    {top bottom : Delegations R.Account} {less : Option ℕ} {s₁ : State R} (h : Tallied s)
    (hm : s.candidateInfo.get c = some m) (htop : s.topDelegations.get c = some top)
    (hbottom : s.bottomDelegations.get c = some bottom)
    (hadded : Added s c d a m top bottom less m' s₁)
    (hfits : stakeOf ((s.candidateInfo.insert c m').get c) (s₁.topDelegations.get c)
      (s₁.bottomDelegations.get c) ≤ maxBalance) :
    Tally (s.candidateInfo.insert c m') s₁.topDelegations s₁.bottomDelegations
      (s.total + (a - less.getD 0)) := by
  obtain ⟨o, bottom₀, s₀, hroom, w, hstored, -, hexact, hless⟩ := hadded.rework htop hbottom hm
  have hamounts : amounts o = less.getD 0 := by
    cases hroom <;> rfl
  have hle : less.getD 0 ≤ a := by
    cases less with
    | none => exact Nat.zero_le _
    | some b => exact Nat.le_of_lt (hless b rfl)
  have hinfo : s.candidateInfo.insert c m' = w.result.candidateInfo := hstored.info
  have htops : s₁.topDelegations = w.result.topDelegations := hstored.top
  have hbottoms : s₁.bottomDelegations = w.result.bottomDelegations := hstored.bottom
  rw [hinfo, htops, hbottoms] at hfits ⊢
  have htotal : s.total + (a - less.getD 0) + amounts o = s.total + amounts [⟨d, a⟩] := by
    rw [hamounts, amounts_cons, amounts_nil]
    show s.total + (a - less.getD 0) + less.getD 0 = s.total + (a + 0)
    omega
  exact w.tallied h hfits hexact htotal

include hL in
/-- Every accepted call but a decrease keeps the totals. -/
theorem Effect.tallied (h : Effect s s') (hs : Sound s) (hs' : Sound s') (ht : Tallied s) :
    Tallied s' := by
  have hfits := hs'.fits hL
  cases h with
  | quiet => exact ht
  | edit _ hm _ hbond => exact ht.setBond hm (congrArg (s.total + ·) hbond.symm)
  | bondMore _ hm hfree _ hbond =>
    have ⟨hadd, _⟩ := (hs.backed.candidate _ _ hm).add_free hL hfree
    apply hs'.tallied_add hL rfl
    apply ht.setBond hm
    omega
  | @bondLess c m m' r _ hm hr _ hbond =>
    have hless := hs.less _ _ _ hm hr
    have hstake := ht.stake_le hm
    rw [stake_eq, hm, Option.elim_some] at hstake
    apply ht.setBond hm
    show s.total - r.amount + m.bond = s.total + m'.bond
    omega
  | join _ hc => exact hs'.tallied_add hL rfl (ht.join hc)
  | @leave c m top bottom _ _ _ hm htop hbottom _ =>
    have hstake : s.stake c = m.bond + (amounts top.delegations + amounts bottom.delegations) := by
      rw [State.stake, hm, htop, hbottom]
      rfl
    have hle := hs.fits hL c
    have htopExact : top.total = amounts top.delegations := ht.top c top htop
    have hbottomExact : bottom.total = amounts bottom.delegations := ht.bottom c bottom hbottom
    have hsum : satAdd (satAdd m.bond top.total) bottom.total = s.stake c := by
      have hinner : satAdd m.bond top.total = m.bond + top.total := satAdd_eq (by omega)
      rw [hinner, satAdd_eq (by omega)]
      omega
    have hleave := ht.leave hm
    rw [← hsum] at hleave
    exact hleave
  | @delegate c _ _ _ _ _ _ _ _ _ hm htop hbottom hadded =>
    have htally := ht.delegate hm htop hbottom hadded (hfits c)
    exact hs'.tallied_add hL rfl htally
  | @increase c d a more D _ w hexact _ _ _ _ =>
    apply hs'.tallied_add hL rfl
    apply w.tallied ht (hfits c) hexact
    simp only [amounts_cons, amounts_nil]
    omega
  | rerequest => exact ht
  | @revoke c d a w hexact v =>
    have hstake := ht.stake_le w.info
    have hself : w.result.stake c + a = s.stake c := w.stake_self
    apply w.tallied ht (hfits c) hexact
    show s.total - a + a = s.total + 0
    omega
  | leaveDelegators _ hleft => exact hleft.tallied (hs.fits hL) ht

include hL in
/-- A decrease keeps the totals unless it takes something off a bottom delegation: that list keeps
its total. -/
theorem Decreased.tallied_iff {c d : R.Account} {a less : ℕ} {bottom : Delegations R.Account}
    (h : Decreased s s' c d a less) (hs : Sound s) (hs' : Sound s') (ht : Tallied s)
    (hbottom : s.bottomDelegations.get c = some bottom) :
    Tallied s' ↔ (⟨d, a⟩ ∈ bottom.delegations → less = 0) := by
  have hfits := hs'.fits hL
  obtain ⟨w, D, hD, hmem, hless, hintop, hinbottom, rfl⟩ := h.out
  have hstake := ht.stake_le w.info
  have hself : w.result.stake c + a = s.stake c + (a - less) := w.stake_self
  have hsum : amounts (w.top'.delegations ++ w.bottom'.delegations) + a =
      amounts (w.top.delegations ++ w.bottom.delegations) + (a - less) :=
    w.relists.exchange.sum Bond.amount
  have hto : ⟨d, a⟩ ∈ s.delegationsTo c := by
    rw [hs.books.agree, delegationsOf_eq hD]
    exact hmem
  obtain ⟨top, bottom₁, htop, hbottom₁, hr, -⟩ := hs.books.candidates.lists w.info
  obtain rfl := Option.some.inj (w.getTop.symm.trans htop)
  obtain rfl := Option.some.inj (w.getBottom.symm.trans hbottom₁)
  obtain rfl := Option.some.inj (w.getBottom.symm.trans hbottom)
  rw [delegationsTo_eq w.getTop w.getBottom] at hto
  have hle : a ≤ s.stake c := by
    have hamount := amount_le_amounts hto
    rw [stake_eq, delegationsTo_eq w.getTop w.getBottom]
    exact Nat.le_add_left_of_le hamount
  have hkeep : StaysExact w.bottom w.bottom' →
      Tallied { w.result with total := s.total - less } := by
    intro hexact
    apply w.tallied ht (hfits c) hexact
    show s.total - less + a = s.total + (a - less)
    omega
  rcases List.mem_append.mp hto with hx | hx
  · have hnot : ⟨d, a⟩ ∉ w.bottom.delegations := fun hx' => hr.ne_of_mem hx hx' rfl
    exact iff_of_true (hkeep (hintop hx)) fun hx' => absurd hx' hnot
  · have ⟨htop', htotal⟩ := hinbottom hx
    have hexact : w.bottom.total = amounts w.bottom.delegations := ht.bottom c w.bottom w.getBottom
    rw [amounts_append, amounts_append, htop'] at hsum
    constructor
    · intro ht' _
      have hexact' : w.bottom'.total = amounts w.bottom'.delegations :=
        ht'.bottom c w.bottom' (get_insert_self _ _ _)
      omega
    · intro hzero
      have hnone := hzero hx
      apply hkeep
      intro _ _
      show w.bottom'.total = amounts w.bottom'.delegations
      omega

end Effects

/-- The execution of a due decrease of a bottom delegation. -/
def LowersBottom (s : State R) : Move R → Prop
  | .call (.signed _) (.executeDelegationRequest d c) => ∃ a less bottom,
    DecreaseDue s c d a less ∧ less ≠ 0 ∧ s.bottomDelegations.get c = some bottom ∧
      ⟨d, a⟩ ∈ bottom.delegations
  | _ => False

section Moves
variable {s : State R} (hR : R.Placed) (hL : R.Lawful)

include hR hL in
/-- The total of the bottom list stays what it was. -/
theorem LowersBottom.breaks {m : Move R} (h : LowersBottom s m) (hs : Sound s) (ht : Tallied s) :
    ¬ Tallied (m.next s) := by
  cases m with
  | call origin call =>
    have hs' := hs.next hR hL (m := .call origin call) trivial
    cases origin with
    | signed who =>
      cases call with
      | executeDelegationRequest d c =>
        obtain ⟨a, less, bottom, hdue, hpos, hbottom, hmem⟩ := h
        obtain ⟨s', hrun, hdecreased⟩ := executeDelegationRequest_due hR hs.books who hdue
        have hnext : (Move.call (.signed who) (.executeDelegationRequest d c)).next s = s' :=
          congrArg Prod.snd hrun
        rw [hnext] at hs' ⊢
        intro ht'
        exact hpos ((hdecreased.tallied_iff hL hs hs' ht hbottom).mp ht' hmem)
      | _ => exact h.elim
    | _ => exact h.elim
  | _ => exact h.elim

theorem executeDelegationRequest_signed {origin : Origin R} {c d : R.Account} {u : PUnit}
    {s' : State R} (h : executeDelegationRequest origin d c s = (.ok u, s')) :
    ∃ who, origin = .signed who := by
  unfold executeDelegationRequest at h
  rw [Tx.transactional_run_ok, Tx.read_bind_ok] at h
  obtain ⟨who, hwho, _⟩ := h
  exact ⟨who, RawOrigin.ensureSigned_eq_ok.mp hwho⟩

include hR hL in
theorem Tallied.next_iff (hs : Sound s) {m : Move R} (hm : m.Permitted s) (ht : Tallied s) :
    Tallied (m.next s) ↔ ¬ LowersBottom s m := by
  constructor
  · intro ht' hlow
    exact hlow.breaks hR hL hs ht ht'
  · intro hnot
    have hs' := hs.next hR hL hm
    cases m with
    | call origin call =>
      by_cases hok : ∃ u, (call.dispatch origin s).1 = .ok u
      · obtain ⟨u, hu⟩ := hok
        rcases call.dispatch_effect hR hs.books hL.free_le (Prod.ext hu rfl) with
          h | ⟨d, c, a, less, rfl, hdue, h⟩
        · exact h.tallied hL hs hs' ht
        · obtain ⟨w, _⟩ := h.out
          obtain ⟨who, rfl⟩ := executeDelegationRequest_signed (Prod.ext hu rfl)
          apply (h.tallied_iff hL hs hs' ht w.getBottom).mpr
          intro hmem
          by_contra hpos
          exact hnot ⟨a, less, w.bottom, hdue, hpos, w.getBottom, hmem⟩
      · show Tallied (call.dispatch origin s).2
        rw [Call.dispatch_rollback fun u hu => hok ⟨u, hu⟩]
        exact ht
    | block now => exact ht
    | other world => exact ht

theorem Tallied.genesis (world : R.World) : Tallied (State.genesis (R := R) world) := by
  refine ⟨?_, ?_, ∅, ?_, rfl⟩
  · intro c list hlist
    cases hlist
  · intro c list hlist
    cases hlist
  · intro c
    rw [containsKey_iff]
    apply iff_of_false (Finset.notMem_empty c)
    intro ⟨m, hm⟩
    cases hm

/-- The totals are exact in all states of a run exactly if no move of it lowers a bottom
delegation. -/
theorem totals_exact (hR : R.Proper) (hL : R.Lawful) {world : R.World}
    {tr : List (State R × Move R)} {s : State R} (h : LawfulRuns (State.genesis world) tr s) :
    Always Tallied tr s ↔ ∀ x ∈ tr, ¬ LowersBottom x.1 x.2 := by
  apply h.always_iff (C := fun s m => ¬ LowersBottom s m)
  · exact Tallied.genesis world
  · intro tr s m hrun ht hm
    exact Tallied.next_iff hR.placed hL (LawfulRuns.sound hR.placed hL hrun) hm ht

section Witness
open Staking.Sample

theorem totals_exact_crowded :
    Always Tallied (trace Move.next (start 1) crowded) (after crowded) := by
  have hrun : LawfulRuns (start 1) (trace Move.next (start 1) crowded) (after crowded) :=
    Run.play (by simp [crowded, trace, user, Move.Permitted])
  apply (totals_exact runtime_proper (runtime_lawful 1) hrun).mpr
  simp [crowded, trace, user, LowersBottom]

/-- Account 3 has a bottom delegation of 10 and takes 4 off it. -/
def lowered : List (Move (runtime 1)) :=
  [user 1 (.joinCandidates 10 0), user 2 (.delegate (1 : ℕ) 20 0 0),
    user 3 (.delegate (1 : ℕ) 10 1 0), user 3 (.scheduleDelegatorBondLess (1 : ℕ) 4), .block 10,
    user 4 (.executeDelegationRequest (3 : ℕ) (1 : ℕ))]

/-- The bottom list of account 1 has 6 left, and a total of 10. -/
theorem totals_drift : ¬ ∀ R : Runtime, R.Proper → R.Lawful → ∀ (world : R.World)
    (tr : List (State R × Move R)) (s : State R), LawfulRuns (State.genesis world) tr s →
    Tallied s := by
  intro h
  have hrun : LawfulRuns (start 1) (trace Move.next (start 1) lowered) (after lowered) :=
    Run.play (by simp [lowered, trace, user, Move.Permitted])
  have htally := h (runtime 1) runtime_proper (runtime_lawful 1) _ _ _ hrun
  have hbottom : (after lowered).bottomDelegations.get (1 : ℕ) = some ⟨[⟨(3 : ℕ), 6⟩], 10⟩ := by
    decide +kernel
  have hexact := htally.bottom (1 : ℕ) _ hbottom
  revert hexact
  unfold Delegations.Exact
  decide

end Witness

end Moves
end Staking
end ZkNft
