import ZkNft.Staking.Draws
import ZkNft.Staking.Shares

/-! What is minted for a round, against its issuance. -/

namespace ZkNft
namespace Staking
open Keyed StorageMap

variable {E : Economy}

/-- The value that is credited to an account. -/
def Notice.credit {A : Type} : Notice A → Option ℕ
  | reservedForParachainBond _ _ value => some value
  | rewarded _ _ rewards => some rewards
  | onCollatorPayout _ _ _ => none

/-- The most that a collator with all points can cost. -/
def DelayedPayout.most (payout : DelayedPayout) : ℕ :=
  max payout.totalStakingReward (payout.collatorCommission.mul payout.roundIssuance)

namespace Storage

/-- What has been credited for round `r`. -/
def credits (s : Storage E) (r : ℕ) : List ℕ := (s.noticesOf r).filterMap Notice.credit

/-- What has been minted for round `r`. -/
def minted (s : Storage E) (r : ℕ) : ℕ := (s.credits r).sum

section Credits
variable {r : ℕ} {c : E.Account}

theorem mint_credits (hE : E.Depositing) (s : Storage E) (r n : ℕ) (a : E.Account) :
    ∃ w new, s.mint r n a = s.paid w new ∧
      (new.filterMap Notice.credit = [] ∨ new.filterMap Notice.credit = [n]) := by
  rcases mint_cases s r n a with ⟨-, h⟩ | ⟨k, w, hw, h⟩
  · exact ⟨s.world, [], h.trans paid_nil.symm, .inl rfl⟩
  · obtain rfl := hE.deposit_amount _ _ _ _ _ hw
    exact ⟨w, _, h, .inr rfl⟩

/-- Some of the delegators get their share. -/
theorem payDelegators_credits (hE : E.Depositing) (r amountDue total : ℕ)
    (bonds : List (Bond E.Account)) (s : Storage E) : ∃ w new, ∃ given : List ℕ,
    payDelegators r amountDue total s bonds = s.paid w new ∧
      given.Sublist (bonds.map Bond.amount) ∧ new.filterMap Notice.credit =
        given.map fun a => (Perbill.fromRational a total).mul amountDue := by
  induction bonds generalizing s with
  | nil => exact ⟨s.world, [], [], paid_nil.symm, .slnil, rfl⟩
  | cons x bonds ih =>
    unfold payDelegators
    dsimp only
    split_ifs
    · obtain ⟨w, new, given, hrest, hsub, hnew⟩ := ih s
      exact ⟨w, new, given, hrest, hsub.cons _, hnew⟩
    · obtain ⟨w, new, hmint, hone⟩ :=
        mint_credits hE s r ((Perbill.fromRational x.amount total).mul amountDue) x.owner
      obtain ⟨w', new', given, hrest, hsub, hnew'⟩ := ih (s.paid w new)
      rw [hmint, hrest, paid_paid]
      rcases hone with hnone | hone
      · refine ⟨w', _, given, rfl, hsub.cons _, ?_⟩
        rw [List.filterMap_append, hnone, hnew']
        rfl
      · refine ⟨w', _, x.amount :: given, rfl, hsub.cons_cons _, ?_⟩
        rw [List.filterMap_append, hone, hnew']
        rfl

/-- What a collator with some of the points costs, where rounding adds one half for each credit. -/
theorem points_mul_le {credits : List ℕ} {pts points most : ℕ}
    (h : 2 * credits.sum ≤ 2 * (Perbill.fromRational pts points).mul most + credits.length) :
    points * credits.sum ≤ pts * most + points * credits.length := by
  cases credits with
  | nil => exact Nat.zero_le _
  | cons n credits =>
    have hshare : points * (2 * (Perbill.fromRational pts points).mul most) ≤
        2 * (pts * most) + points := PerThing.fromRational_mul_le (by decide) pts points
    have hall := Nat.mul_le_mul_left points h
    rw [Nat.mul_add] at hall
    have hone : points ≤ points * (n :: credits).length := by
      apply Nat.le_mul_of_pos_right
      exact Nat.succ_pos _
    have htwo : points * (2 * (n :: credits).sum) = 2 * (points * (n :: credits).sum) := by ring
    omega

/-- Shares of a whole. -/
theorem shares_le {ps : List ℕ} {total : ℕ} (h : ps.sum ≤ total) (n : ℕ) :
    2 * (ps.map fun p => (Perbill.fromRational p total).mul n).sum ≤ 2 * n + ps.length := by
  have hparts : ((ps.map fun p => Perbill.fromRational p total).map PerThing.parts).sum ≤
      10 ^ 9 := PerThing.sum_fromRational_le h
  have hle := PerThing.sum_mul_le (x := n) (Nat.pow_pos (by decide)) hparts
  simp only [List.map_map, List.length_map, Function.comp_def] at hle
  exact hle

/-- A collator that has no delegators gets all that its points are worth. -/
theorem solo_credits (hE : E.Depositing) (s : Storage E) (r n : ℕ) (c : E.Account) :
    ∃ w new, (s.mint r n c).onCollatorPayout r c n = s.paid w new ∧
      2 * (new.filterMap Notice.credit).sum ≤
        2 * n + (new.filterMap Notice.credit).length := by
  obtain ⟨w, new, hmint, hone⟩ := mint_credits hE s r n c
  have hpaid : (s.mint r n c).onCollatorPayout r c n =
      s.paid w (new ++ [.onCollatorPayout r c n]) := by
    rw [hmint, ← paid_paid]
    rfl
  refine ⟨w, _, hpaid, ?_⟩
  have hsame : (new ++ [Notice.onCollatorPayout r c n]).filterMap Notice.credit =
      new.filterMap Notice.credit := by
    rw [List.filterMap_append]
    exact List.append_nil _
  rw [hsame]
  rcases hone with hone | hone
  · simp [hone]
  · simp [hone]

/-- A collator gets its commission, and shares the rest with its delegators. -/
theorem shared_credits (hE : E.Depositing) {x : CollatorSnapshot E.Account} (hx : x.Whole)
    (s : Storage E) (r due commission : ℕ) (c : E.Account) :
    let reward := satAdd ((Perbill.fromRational x.bond x.total).mul due) commission
    ∃ w new, payDelegators r due x.total ((s.mint r reward c).onCollatorPayout r c reward)
      x.delegations = s.paid w new ∧
        2 * (new.filterMap Notice.credit).sum ≤
          2 * (due + commission) + (new.filterMap Notice.credit).length := by
  intro reward
  obtain ⟨w, new, hmint, hone⟩ := mint_credits hE s r reward c
  have hpaid : (s.mint r reward c).onCollatorPayout r c reward =
      s.paid w (new ++ [.onCollatorPayout r c reward]) := by
    rw [hmint, ← paid_paid]
    rfl
  obtain ⟨w', new', given, hrest, hsub, hnew'⟩ := payDelegators_credits hE r due x.total
    x.delegations (s.paid w (new ++ [.onCollatorPayout r c reward]))
  have hgiven : given.sum ≤ amounts x.delegations := hsub.sum_le_sum fun _ _ => Nat.zero_le _
  unfold CollatorSnapshot.Whole at hx
  have hreward : reward ≤ (Perbill.fromRational x.bond x.total).mul due + commission :=
    Nat.min_le_left _ _
  refine ⟨w', _, by rw [hpaid, hrest, paid_paid], ?_⟩
  have hsame : (new ++ [Notice.onCollatorPayout r c reward] ++ new').filterMap Notice.credit =
      new.filterMap Notice.credit ++
        given.map fun a => (Perbill.fromRational a x.total).mul due := by
    rw [List.filterMap_append, List.filterMap_append, hnew']
    exact congrArg (· ++ _) (List.append_nil _)
  rw [hsame, List.sum_append, List.length_append, List.length_map]
  rcases hone with hone | hone
  · have hshares := shares_le (show given.sum ≤ x.total by omega) due
    rw [hone, List.sum_nil, List.length_nil]
    omega
  · have hshares := shares_le (show (x.bond :: given).sum ≤ x.total by
      rw [List.sum_cons]
      omega) due
    rw [List.map_cons, List.sum_cons, List.length_cons] at hshares
    rw [hone, List.sum_singleton, List.length_singleton]
    omega

/-- What a collator costs, against its points. -/
theorem payCollator_credits (hE : E.Depositing) {s : Storage E} (hs : s.Shared)
    (payout : DelayedPayout) (points pts : ℕ) : ∃ w new,
    (s.payCollator r payout points c pts).1 = (s.takeSnapshot r c).paid w new ∧
      points * (new.filterMap Notice.credit).sum ≤
        pts * payout.most + points * (new.filterMap Notice.credit).length := by
  have htotal : (Perbill.fromRational pts points).mul payout.totalStakingReward ≤
      (Perbill.fromRational pts points).mul payout.most :=
    PerThing.mul_mono (Nat.le_max_left _ _)
  have hcommission : (Perbill.fromRational pts points).mul
      (payout.collatorCommission.mul payout.roundIssuance) ≤
        (Perbill.fromRational pts points).mul payout.most :=
    PerThing.mul_mono (Nat.le_max_right _ _)
  unfold payCollator
  dsimp only
  split_ifs
  · obtain ⟨w, new, hpaid, hle⟩ := solo_credits hE (s.takeSnapshot r c) r
      ((Perbill.fromRational pts points).mul payout.totalStakingReward) c
    refine ⟨w, new, hpaid, points_mul_le ?_⟩
    omega
  · have hwhole : (((s.atStake r).get c).getD .default).Whole := by
      cases hx : (s.atStake r).get c with
      | none => exact Nat.le_refl 0
      | some x => exact hs r c x hx
    obtain ⟨w, new, hpaid, hle⟩ := shared_credits hE hwhole (s.takeSnapshot r c) r
      ((Perbill.fromRational pts points).mul payout.totalStakingReward -
        (Perbill.fromRational pts points).mul
          (payout.collatorCommission.mul payout.roundIssuance))
      ((Perbill.fromRational pts points).mul
        (payout.collatorCommission.mul payout.roundIssuance)) c
    refine ⟨w, new, hpaid, points_mul_le ?_⟩
    omega

end Credits

/-- The sum of the points of some entries. -/
def pointsIn (entries : List (E.Account × ℕ)) : ℕ := (entries.map Prod.snd).sum

/-- What is minted for round `r` is within a limit and one unit for each credit, and what those who
are still to be drawn can cost is left of it. -/
structure Within (r limit : ℕ) (s : Storage E) : Prop where
  bounded : s.minted r ≤ limit + (s.credits r).length
  left : ∀ payout, s.delayedPayouts.get r = some payout →
    (s.points.get r).getD 0 * s.minted r + pointsIn (s.awardedPts r) * payout.most ≤
      (s.points.get r).getD 0 * (limit + (s.credits r).length)

section Within
variable {s s' : Storage E} {r limit : ℕ}

theorem SameFor.credits (h : SameFor r s s') : s'.credits r = s.credits r := by
  unfold Storage.credits
  rw [h.notices]

theorem Within.sameFor (hs : Within r limit s) (h : SameFor r s s') : Within r limit s' := by
  have hminted : s'.minted r = s.minted r := congrArg List.sum h.credits
  constructor
  · rw [hminted, h.credits]
    exact hs.bounded
  · intro payout hpayout
    rw [h.payout] at hpayout
    rw [hminted, h.credits, h.points, h.awarded]
    exact hs.left payout hpayout

theorem credits_append {new : List (Notice E.Account)} (h : s'.notices = s.notices ++ new)
    (hround : ∀ x ∈ new, x.round = r) :
    s'.credits r = s.credits r ++ new.filterMap Notice.credit := by
  unfold credits
  rw [noticesOf_append h hround, List.filterMap_append]

/-- One more block of the round that pays. -/
theorem Within.handled (hE : E.Depositing) (hshared : s.Shared) (hs : Within r limit s)
    (h : Handled s r s') : Within r limit s' := by
  have hround := h.step.notices
  cases h with
  | idle => exact hs
  | clean =>
    refine ⟨hs.bounded, ?_⟩
    intro p hp
    rw [get_remove_self] at hp
    cases hp
  | @draw payout c pts rest hsome hpoints hfirst =>
    obtain ⟨w, new, hpaid, hcost⟩ := payCollator_credits (r := r) (c := c) hE
      (s := s.drain r rest) hshared payout ((s.points.get r).getD 0) pts
    rw [hpaid] at hround ⊢
    have hnew : ∀ x ∈ new, x.round = r := by
      obtain ⟨new', happend, hall⟩ := hround
      obtain rfl : new = new' := List.append_cancel_left happend
      exact hall
    have hcredits : (((s.drain r rest).takeSnapshot r c).paid w new).credits r =
        s.credits r ++ new.filterMap Notice.credit := credits_append rfl hnew
    have hminted : (((s.drain r rest).takeSnapshot r c).paid w new).minted r =
        s.minted r + (new.filterMap Notice.credit).sum := by
      unfold minted
      rw [hcredits, List.sum_append]
    have hleft := hs.left payout hsome
    have hrest : pointsIn (s.awardedPts r) = pts + pointsIn rest := by
      rw [hfirst]
      exact List.sum_cons
    have hkeys : (((s.drain r rest).takeSnapshot r c).paid w new).awardedPts r = rest :=
      if_pos rfl
    have hsum : (s.points.get r).getD 0 * (s.minted r + (new.filterMap Notice.credit).sum) +
        pointsIn rest * payout.most ≤ (s.points.get r).getD 0 *
          (limit + ((s.credits r).length + (new.filterMap Notice.credit).length)) := by
      rw [hrest, Nat.add_mul] at hleft
      simp only [Nat.mul_add] at hleft ⊢
      omega
    constructor
    · rw [hminted, hcredits, List.length_append]
      apply Nat.le_of_mul_le_mul_left _ (Nat.pos_of_ne_zero hpoints)
      exact Nat.le_trans (Nat.le_add_right _ _) hsum
    · intro p hp
      obtain rfl := Option.some.inj (hsome.symm.trans hp)
      rw [hminted, hcredits, List.length_append, hkeys]
      exact hsum

/-- The block that prepares a payout reserves its part of the limit. -/
theorem Prepared.within (hE : E.Depositing) (h : Prepared s r s') (hnone : s.credits r = [])
    (hpayout : s.delayedPayouts.get r = none)
    (hpoints : pointsIn (s.awardedPts r) ≤ (s.points.get r).getD 0) :
    Within r (max (s.issuanceOf r)
      (s.reserveOf r + s.collatorCommission.mul (s.issuanceOf r))) s' := by
  have hround := h.step.notices
  have hcommission : s.collatorCommission.mul (s.issuanceOf r) ≤ s.issuanceOf r :=
    PerThing.mul_le (Nat.pow_pos (by decide))
  have hreserve : s.reserveOf r ≤ s.issuanceOf r := PerThing.mul_le (by decide)
  have hzero : s.minted r = 0 := congrArg List.sum hnone
  cases h with
  | idle =>
    refine ⟨by omega, ?_⟩
    intro p hp
    rw [hpayout] at hp
    cases hp
  | whole =>
    constructor
    · show s.minted r ≤ _
      omega
    · intro p hp
      obtain rfl := Option.some.inj ((get_insert_self _ _ _).symm.trans hp)
      have hmost : (⟨s.issuanceOf r, s.issuanceOf r, s.collatorCommission⟩ :
          DelayedPayout).most = s.issuanceOf r := Nat.max_eq_left hcommission
      show (s.points.get r).getD 0 * s.minted r + pointsIn (s.awardedPts r) * _ ≤ _
      rw [hmost, hzero, Nat.mul_zero, Nat.zero_add]
      apply Nat.mul_le_mul hpoints
      omega
  | @reserved k w hne hdeposit =>
    obtain rfl := hE.deposit_amount _ _ _ _ _ hdeposit
    have hcredits : (s.paid w [.reservedForParachainBond r s.parachainBondInfo.account
        (s.reserveOf r)]).credits r = [s.reserveOf r] := by
      rw [credits_append (s := s) rfl (by simp [Notice.round]), hnone]
      rfl
    have hminted : (s.paid w [.reservedForParachainBond r s.parachainBondInfo.account
        (s.reserveOf r)]).minted r = s.reserveOf r := congrArg List.sum hcredits
    constructor
    · show (s.paid w _).minted r ≤ _ + ((s.paid w _).credits r).length
      rw [hminted]
      omega
    · intro p hp
      obtain rfl := Option.some.inj ((get_insert_self _ _ _).symm.trans hp)
      have hmost : s.reserveOf r + (⟨s.issuanceOf r, s.issuanceOf r - s.reserveOf r,
          s.collatorCommission⟩ : DelayedPayout).most = max (s.issuanceOf r)
            (s.reserveOf r + s.collatorCommission.mul (s.issuanceOf r)) := by
        unfold DelayedPayout.most
        dsimp only
        omega
      show (s.points.get r).getD 0 * (s.paid w _).minted r + pointsIn (s.awardedPts r) * _ ≤
        (s.points.get r).getD 0 * (_ + ((s.paid w _).credits r).length)
      rw [hminted, hcredits, ← hmost]
      calc (s.points.get r).getD 0 * s.reserveOf r + pointsIn (s.awardedPts r) * _
          ≤ (s.points.get r).getD 0 * s.reserveOf r + (s.points.get r).getD 0 * _ :=
            Nat.add_le_add_left (Nat.mul_le_mul_right _ hpoints) _
        _ = (s.points.get r).getD 0 * (s.reserveOf r + _) := (Nat.mul_add _ _ _).symm
        _ ≤ _ := Nat.mul_le_mul_left _ (Nat.le_add_right _ _)

end Within
/-- What the payouts rely on in round `now`: points are those of the awards, there are none in later
rounds, and nothing has been paid for a round before its time. -/
structure Payable (now : ℕ) (s : Storage E) : Prop where
  awards : ∀ r, (s.points.get r).getD 0 < maxPoints →
    pointsIn (s.awardedPts r) ≤ (s.points.get r).getD 0
  ahead : ∀ r, now < r → s.points.get r = none
  pending : ∀ r, now < r + E.rewardPaymentDelay →
    s.delayedPayouts.get r = none ∧ s.credits r = []

namespace Payable
variable {s s' : Storage E} {now r : ℕ}

theorem later (hs : Payable now s) : Payable (now + 1) s :=
  ⟨hs.awards, fun r hr => hs.ahead r (by omega), fun r hr => hs.pending r (by omega)⟩

theorem sameFor (hs : Payable now s) (h : ∀ r, SameFor r s s') : Payable now s' := by
  constructor
  · intro r
    rw [(h r).points, (h r).awarded]
    exact hs.awards r
  · intro r hr
    rw [(h r).points]
    exact hs.ahead r hr
  · intro r hr
    rw [(h r).payout, (h r).credits]
    exact hs.pending r hr

/-- The payout of a round that is due. -/
theorem step (hs : Payable now s) (h : PayoutStep r s s') (hdue : r + E.rewardPaymentDelay ≤ now)
    (hawards : (s'.points.get r).getD 0 < maxPoints →
      pointsIn (s'.awardedPts r) ≤ (s'.points.get r).getD 0) : Payable now s' := by
  constructor
  · intro r'
    by_cases hr : r' = r
    · rw [hr]
      exact hawards
    · rw [(h.sameFor hr).points, (h.sameFor hr).awarded]
      exact hs.awards r'
  · intro r' hr
    rw [(h.sameFor (show r' ≠ r by omega)).points]
    exact hs.ahead r' hr
  · intro r' hr
    have hsame := h.sameFor (show r' ≠ r by omega)
    rw [hsame.payout, hsame.credits]
    exact hs.pending r' hr

theorem handled (hs : Payable now s) (h : Handled s r s')
    (hdue : r + E.rewardPaymentDelay ≤ now) : Payable now s' := by
  have hawards := hs.awards r
  apply hs.step h.step hdue
  cases h with
  | idle => exact hawards
  | clean _ hdone =>
    intro _
    show pointsIn (s.awardedPts r) ≤ _
    rcases hdone with hzero | hnil
    · have hnone := hawards (by rw [hzero]; decide)
      omega
    · rw [hnil]
      exact Nat.zero_le _
  | @draw payout c pts rest hsome hpoints hfirst =>
    obtain ⟨w, new, hpaid, -, -⟩ :=
      payCollator_paid (r := r) (c := c) (s.drain r rest) payout ((s.points.get r).getD 0) pts
    have hkeys : (((s.drain r rest).takeSnapshot r c).paid w new).awardedPts r = rest :=
      if_pos rfl
    rw [hpaid, hkeys]
    intro hlt
    have hle := hawards hlt
    rw [hfirst] at hle
    exact Nat.le_trans (Nat.le_add_left _ pts) (Nat.le_trans (Nat.le_of_eq List.sum_cons.symm) hle)

theorem prepared (hs : Payable now s) (h : Prepared s r s')
    (hdue : r + E.rewardPaymentDelay ≤ now) : Payable now s' := by
  have hawards := hs.awards r
  apply hs.step h.step hdue
  cases h with
  | idle => exact hawards
  | whole => exact hawards
  | reserved => exact hawards

theorem opened (hs : Payable s.round.current s) {n : ℕ} (h : Opened s n s') :
    Payable s'.round.current s' := by
  have hhandled : ∀ {s₁ : Storage E} {now : ℕ}, Payable now s₁ →
      Payable now (s₁.handleDelayedPayouts now) := by
    intro s₁ now hs₁
    rcases s₁.handleDelayedPayouts_cases now with ⟨-, h⟩ | ⟨r, hr, h⟩
    · rw [h]
      exact hs₁
    · exact hs₁.handled h (by omega)
  cases h with
  | same =>
    rw [handleDelayedPayouts_round]
    exact hhandled hs
  | @begins s₁ _ hselect =>
    have hprepared : Payable (s.round.current + 1)
        (s.prepareStakingPayouts (s.round.current + 1)) := by
      rcases s.prepareStakingPayouts_cases (s.round.current + 1) with ⟨-, h⟩ | ⟨r, hr, -, h⟩
      · rw [h]
        exact hs.later
      · exact hs.later.prepared h (by omega)
    rw [handleDelayedPayouts_round]
    apply hhandled
    exact hprepared.sameFor fun r => begun_sameFor hselect _ _

/-- A new score takes the place of an old one. -/
theorem pointsIn_insertAwarded (entries : List (E.Account × ℕ)) (a : E.Account) (score : ℕ) :
    pointsIn (insertAwarded entries a score) + Storage.awarded entries a ≤
      pointsIn entries + score := by
  have hperm : pointsIn (insertAwarded entries a score) =
      score + pointsIn (entries.filter fun x => x.1 ≠ a) :=
    ((List.perm_orderedInsert _ _ _).map Prod.snd).sum_eq.trans List.sum_cons
  have hold : pointsIn (entries.filter fun x => x.1 ≠ a) + Storage.awarded entries a ≤
      pointsIn entries := by
    clear hperm
    induction entries with
    | nil => exact Nat.le_refl 0
    | cons x entries ih =>
      have hcons : pointsIn (x :: entries) = x.2 + pointsIn entries := List.sum_cons
      unfold Storage.awarded at ih ⊢
      by_cases hx : x.1 = a
      · have hsub : pointsIn (entries.filter fun x => x.1 ≠ a) ≤ pointsIn entries :=
          (List.filter_sublist.map Prod.snd).sum_le_sum fun _ _ => Nat.zero_le _
        rw [List.filter_cons_of_neg (by simpa using hx), List.find?_cons_of_pos (by simpa using hx),
          hcons]
        show _ + x.2 ≤ _
        omega
      · have hkeep : pointsIn (x :: entries.filter fun x => x.1 ≠ a) =
            x.2 + pointsIn (entries.filter fun x => x.1 ≠ a) := List.sum_cons
        rw [List.filter_cons_of_pos (by simpa using hx), List.find?_cons_of_neg (by simpa using hx),
          hcons, hkeep]
        omega
  omega

theorem award (hs : Payable s.round.current s) (a : E.Account) :
    Payable s.round.current (s.awardPointsToBlockAuthor a) := by
  constructor
  · intro r
    by_cases hr : s.round.current = r
    · subst hr
      have hawards := hs.awards s.round.current
      have hpoints : (s.awardPointsToBlockAuthor a).points.get s.round.current =
          some (min ((s.points.get s.round.current).getD 0 + 20) maxPoints) :=
        get_insert_self _ _ _
      have hkeys : (s.awardPointsToBlockAuthor a).awardedPts s.round.current =
          insertAwarded (s.awardedPts s.round.current) a
            (min (Storage.awarded (s.awardedPts s.round.current) a + 20) maxPoints) := if_pos rfl
      have hsum := pointsIn_insertAwarded (s.awardedPts s.round.current) a
        (min (Storage.awarded (s.awardedPts s.round.current) a + 20) maxPoints)
      rw [hpoints, hkeys, Option.getD_some]
      intro hlt
      have hle := hawards (by omega)
      omega
    · rw [(awardPointsToBlockAuthor_sameFor hr).points,
        (awardPointsToBlockAuthor_sameFor hr).awarded]
      exact hs.awards r
  · intro r hr
    rw [(awardPointsToBlockAuthor_sameFor (Nat.ne_of_lt hr)).points]
    exact hs.ahead r hr
  · exact hs.pending

theorem next (hs : Payable s.round.current s) {t : Turn E} (h : t.Does s s') :
    Payable s'.round.current s' := by
  cases h with
  | opens hrun => exact hs.opened (onInitialize_ok hrun)
  | halts => exact hs
  | calls origin call config =>
    have hround : ((call.dispatch origin s.toState).2).round.current = s.round.current :=
      call.dispatch_current s.toState
    show Payable ((call.dispatch origin s.toState).2).round.current _
    rw [hround]
    exact hs.sameFor fun _ => ⟨rfl, rfl, rfl, rfl⟩
  | panics => exact hs
  | measures => exact hs.sameFor fun _ => ⟨rfl, rfl, rfl, rfl⟩
  | moves => exact hs.sameFor fun _ => ⟨rfl, rfl, rfl, rfl⟩
  | closes author => exact hs.award author

theorem genesis {config : GenesisConfig E} {world : E.World} (h : config.build world = .ok s) :
    Payable s.round.current s := by
  obtain ⟨stakes, -, hselect⟩ :=
    GenesisConfig.build_ok (I := fun _ => True) (fun _ _ _ _ => trivial) h trivial
  obtain ⟨atStake, selected, rfl⟩ := (selectTopCandidates_ok hselect).same
  exact ⟨fun _ _ => Nat.le_refl 0, fun _ _ => rfl, fun _ _ => ⟨rfl, rfl⟩⟩

end Payable

section Opened
variable {s s' : Storage E} {n r limit : ℕ}

/-- A block pays for a round that is due, or for another. -/
theorem Opened.within (hE : E.Depositing) (happ : Apportioned s) (hs : Within r limit s)
    (hdue : r + E.rewardPaymentDelay ≤ s.round.current) (h : Opened s n s') :
    Within r limit s' ∧ r + E.rewardPaymentDelay ≤ s'.round.current := by
  cases h with
  | same =>
    rw [handleDelayedPayouts_round]
    refine ⟨?_, hdue⟩
    by_cases hnow : s.round.current = r + E.rewardPaymentDelay
    · exact hs.handled hE happ.shared (handled_of_eq hnow)
    · exact hs.sameFor (handleDelayedPayouts_sameFor hnow)
  | @begins s₁ _ hselect =>
    rw [handleDelayedPayouts_round]
    have hnow : s.round.current + 1 ≠ r + E.rewardPaymentDelay := by omega
    refine ⟨hs.sameFor ?_, Nat.le_succ_of_le hdue⟩
    exact ((prepareStakingPayouts_sameFor hnow).trans (begun_sameFor hselect _ _)).trans
      (handleDelayedPayouts_sameFor hnow)

theorem handleDelayedPayouts_none {now : ℕ} (h : s.delayedPayouts.get r = none) :
    (s.handleDelayedPayouts now).delayedPayouts.get r = none := by
  rcases s.handleDelayedPayouts_cases now with ⟨-, hs⟩ | ⟨p, -, hs⟩
  · rw [hs]
    exact h
  · by_cases hr : r = p
    · subst hr
      generalize s.handleDelayedPayouts now = s' at hs ⊢
      cases hs with
      | idle => exact h
      | clean hsome =>
        rw [h] at hsome
        cases hsome
      | draw hsome =>
        rw [h] at hsome
        cases hsome
    · rw [(hs.step.sameFor hr).payout]
      exact h

/-- The block that prepares the payout of round `r`. -/
theorem Opened.prepares (hE : E.Depositing) (happ : Apportioned s)
    (hpay : Payable s.round.current s) (h : Opened s n s') (hnone : s.delayedPayouts.get r = none)
    (hsome : (s'.delayedPayouts.get r).isSome) (hpoints : (s.points.get r).getD 0 < maxPoints) :
    Within r (max (s.issuanceOf r)
      (s.reserveOf r + s.collatorCommission.mul (s.issuanceOf r))) s' ∧
    r + E.rewardPaymentDelay ≤ s'.round.current ∧ 1 ≤ E.rewardPaymentDelay := by
  cases h with
  | same =>
    rw [handleDelayedPayouts_none hnone] at hsome
    cases hsome
  | @begins s₁ _ hselect =>
    rw [handleDelayedPayouts_round]
    have hbegun : SameFor r (s.prepareStakingPayouts (s.round.current + 1)) { s₁ with
        round := s.round.update n
        staked := s₁.staked.insert (s.round.current + 1) s₁.total } := begun_sameFor hselect _ _
    have hprepared : (s.prepareStakingPayouts (s.round.current + 1)).delayedPayouts.get r ≠
        none := by
      intro h
      rw [← hbegun.payout] at h
      rw [handleDelayedPayouts_none h] at hsome
      cases hsome
    rcases s.prepareStakingPayouts_cases (s.round.current + 1) with ⟨-, hs⟩ | ⟨p, hp, -, hs⟩
    · rw [hs] at hprepared
      exact absurd hnone hprepared
    · have hr : r = p := by
        by_contra hr
        rw [(hs.step.sameFor hr).payout] at hprepared
        exact hprepared hnone
      subst hr
      have hdelay : 1 ≤ E.rewardPaymentDelay := by
        by_contra hdelay
        have hzero : (s.points.get r).getD 0 = 0 := by
          rw [hpay.ahead r (by omega)]
          rfl
        generalize s.prepareStakingPayouts (s.round.current + 1) = s₂ at hs hprepared
        cases hs with
        | idle => exact hprepared hnone
        | whole hne => exact hne hzero
        | reserved hne => exact hne hzero
      have hwithin := hs.within hE (hpay.pending r (by omega)).2 hnone (hpay.awards r hpoints)
      refine ⟨?_, Nat.le_of_eq hp.symm, hdelay⟩
      exact (hwithin.sameFor hbegun).handled hE (happ.begun hE hselect).shared (handled_of_eq hp)

theorem Within.next (hE : E.Depositing) (hdelay : 1 ≤ E.rewardPaymentDelay)
    (happ : Apportioned s) (hs : Within r limit s)
    (hdue : r + E.rewardPaymentDelay ≤ s.round.current) {t : Turn E} (h : t.Does s s') :
    Within r limit s' ∧ r + E.rewardPaymentDelay ≤ s'.round.current := by
  cases h with
  | opens hrun => exact (onInitialize_ok hrun).within hE happ hs hdue
  | halts => exact ⟨hs, hdue⟩
  | calls origin call config =>
    refine ⟨hs.sameFor ⟨rfl, rfl, rfl, rfl⟩, ?_⟩
    show _ ≤ ((call.dispatch origin s.toState).2).round.current
    rw [show ((call.dispatch origin s.toState).2).round.current = s.round.current from
      call.dispatch_current s.toState]
    exact hdue
  | panics => exact ⟨hs, hdue⟩
  | measures => exact ⟨hs.sameFor ⟨rfl, rfl, rfl, rfl⟩, hdue⟩
  | moves => exact ⟨hs.sameFor ⟨rfl, rfl, rfl, rfl⟩, hdue⟩
  | closes author =>
    exact ⟨hs.sameFor (awardPointsToBlockAuthor_sameFor (by omega)), hdue⟩

end Opened
end Storage

/-- The payout of round `r` is prepared. -/
def Turn.Prepares (r : ℕ) (s : Storage E) (t : Turn E) : Prop :=
  s.delayedPayouts.get r = none ∧ ((t.next s).delayedPayouts.get r).isSome

/-- The turn that prepares a payout opens a block. -/
theorem Turn.Prepares.opened {r : ℕ} {s : Storage E} {t : Turn E} (h : t.Prepares r s) :
    ∃ n, Storage.Opened s n (t.next s) := by
  obtain ⟨hnone, hsome⟩ := h
  have hdoes := t.does s
  generalize t.next s = s' at hsome hdoes ⊢
  cases hdoes with
  | opens hrun => exact ⟨_, Storage.onInitialize_ok hrun⟩
  | halts => exact absurd hsome (by simp [hnone])
  | calls => exact absurd hsome (by simp [hnone])
  | panics => exact absurd hsome (by simp [hnone])
  | measures => exact absurd hsome (by simp [hnone])
  | moves => exact absurd hsome (by simp [hnone])
  | closes => exact absurd hsome (by simp [hnone, Storage.awardPointsToBlockAuthor])

/-- What is minted for a round is within its issuance, or the reserve and the commission where these
are more, and one unit for each credit. -/
theorem minted_le (hR : E.toRuntime.Placed) (hE : E.Depositing) {config : GenesisConfig E}
    {world : E.World} {s₀ s : Storage E} (hbuild : config.build world = .ok s₀)
    {tr : List (Storage E × Turn E)} (h : LawfulTurns s₀ tr s) {r : ℕ} {x : Storage E × Turn E}
    (hx : x ∈ tr) (hprepares : x.2.Prepares r x.1)
    (hpoints : (x.1.points.get r).getD 0 < Storage.maxPoints) :
    s.minted r ≤ max (x.1.issuanceOf r)
      (x.1.reserveOf r + x.1.collatorCommission.mul (x.1.issuanceOf r)) +
        (s.credits r).length := by
  have happ : ∀ {tr s}, LawfulTurns s₀ tr s → Apportioned s := fun h =>
    h.invariant (.genesis hR hE.toLawful hbuild) fun s t hs ht => hs.next hR hE ht (t.does s)
  obtain ⟨tr₁, tr₂, rfl⟩ := List.append_of_mem hx
  obtain ⟨s₁, t⟩ := x
  obtain ⟨h₁, ht, h₂⟩ := h.split
  have hpay : Storage.Payable s₁.round.current s₁ :=
    h₁.invariant (I := fun s => Storage.Payable s.round.current s) (.genesis hbuild)
      fun s t hs _ => hs.next (t.does s)
  obtain ⟨n, hopened⟩ := hprepares.opened
  obtain ⟨hwithin, hdue, hdelay⟩ :=
    hopened.prepares hE (happ h₁) hpay hprepares.1 hprepares.2 hpoints
  have happ₁ := (happ h₁).next hR hE ht (t.does s₁)
  have hlast := h₂.invariant (I := fun s => Apportioned s ∧ Storage.Within r
      (max (s₁.issuanceOf r) (s₁.reserveOf r + s₁.collatorCommission.mul (s₁.issuanceOf r))) s ∧
      r + E.rewardPaymentDelay ≤ s.round.current) ⟨happ₁, hwithin, hdue⟩ fun s t hs ht =>
    ⟨hs.1.next hR hE ht (t.does s), hs.2.1.next hE hdelay hs.1 hs.2.2 (t.does s)⟩
  exact hlast.2.1.bounded

namespace Storage

/-- The storage after `n` more awards to one author in its round. -/
def scored (s : Storage E) (a : E.Account) (n : ℕ) : Storage E :=
  { s with
    awardedPts := fun r =>
      if r = s.round.current then insertAwarded (s.awardedPts r) a
        (min (awarded (s.awardedPts s.round.current) a + 20 * n) maxPoints)
      else s.awardedPts r
    points := s.points.insert s.round.current
      (min ((s.points.get s.round.current).getD 0 + 20 * n) maxPoints) }

section Scored
variable {entries : List (E.Account × ℕ)} {a : E.Account} {score score' n : ℕ} {s : Storage E}

theorem awarded_insertAwarded : awarded (insertAwarded entries a score) a = score := by
  unfold insertAwarded
  have hnone : ∀ x ∈ entries.filter fun x => x.1 ≠ a, x.1 ≠ a := fun x hx => by
    simpa using (List.mem_filter.mp hx).2
  generalize (entries.filter fun x => x.1 ≠ a) = rest at hnone
  induction rest with
  | nil => simp [awarded]
  | cons x rest ih =>
    have ⟨hx, hrest⟩ := List.forall_mem_cons.mp hnone
    have hrec := ih hrest
    rw [List.orderedInsert_cons]
    split_ifs
    · simp [awarded]
    · unfold awarded at hrec ⊢
      rw [List.find?_cons_of_neg (by simpa using hx)]
      exact hrec

theorem insertAwarded_insertAwarded :
    insertAwarded (insertAwarded entries a score) a score' = insertAwarded entries a score' := by
  have hrest : (insertAwarded entries a score).filter (fun x => x.1 ≠ a) =
      entries.filter fun x => x.1 ≠ a := by
    unfold insertAwarded
    have hnone : ∀ x ∈ entries.filter fun x => x.1 ≠ a, decide (x.1 ≠ a) = true :=
      fun x hx => (List.mem_filter.mp hx).2
    generalize (entries.filter fun x => x.1 ≠ a) = rest at hnone
    induction rest with
    | nil => simp
    | cons x rest ih =>
      have ⟨hx, hrest⟩ := List.forall_mem_cons.mp hnone
      rw [List.orderedInsert_cons]
      split_ifs
      · rw [List.filter_cons_of_neg (by simp), List.filter_eq_self.mpr hnone]
      · rw [List.filter_cons_of_pos (by exact hx), ih hrest]
  unfold insertAwarded at hrest ⊢
  rw [hrest]

theorem scored_one (s : Storage E) (a : E.Account) :
    s.awardPointsToBlockAuthor a = s.scored a 1 := rfl

theorem scored_succ (s : Storage E) (a : E.Account) (n : ℕ) :
    (s.scored a n).awardPointsToBlockAuthor a = s.scored a (n + 1) := by
  have hkeys : (s.scored a n).awardedPts s.round.current = insertAwarded
      (s.awardedPts s.round.current) a
      (min (awarded (s.awardedPts s.round.current) a + 20 * n) maxPoints) := if_pos rfl
  have hpoints : (s.scored a n).points.get s.round.current =
      some (min ((s.points.get s.round.current).getD 0 + 20 * n) maxPoints) :=
    get_insert_self _ _ _
  have hround : (s.scored a n).round = s.round := rfl
  unfold awardPointsToBlockAuthor
  dsimp only
  rw [hround, hkeys, awarded_insertAwarded, hpoints, Option.getD_some]
  unfold scored
  dsimp only
  congr 1
  · apply StorageMap.ext
    funext r
    by_cases hr : r = s.round.current
    · rw [hr, get_insert_self, get_insert_self]
      congr 1
      omega
    · rw [get_insert_of_ne _ _ hr, get_insert_of_ne _ _ hr, get_insert_of_ne _ _ hr]
  · funext r
    by_cases hr : r = s.round.current
    · rw [if_pos hr, if_pos hr, if_pos hr, insertAwarded_insertAwarded]
      congr 1
      omega
    · rw [if_neg hr, if_neg hr, if_neg hr]

end Scored
end Storage

/-- The next blocks of a round, from number `k` on, which one author makes. -/
def blocksFrom (a : E.Account) : (k n : ℕ) → List (Turn E)
  | _, 0 => []
  | k, n + 1 => .openBlock k :: .closeBlock a :: blocksFrom a (k + 1) n

theorem openBlock_idle {s : Storage E} {k : ℕ} (hround : s.round.shouldUpdate k = false)
    (hidle : s.handleDelayedPayouts s.round.current = s) : (Turn.openBlock k).next s = s := by
  have hrun : s.onInitialize k = .ok s := by
    unfold Storage.onInitialize
    rw [if_neg (by simp [hround]), hidle]
    rfl
  simp only [Turn.next, hrun]

section Blocks
variable {s : Storage E} {a : E.Account} {k m n : ℕ}

/-- Within a round, blocks that have nothing to pay only add to the points of their author. -/
theorem pair_next (hlength : k - s.round.first < s.round.length)
    (hpayouts : s.delayedPayouts = .empty) :
    (Turn.closeBlock a).next ((Turn.openBlock k).next s) = s.awardPointsToBlockAuthor a := by
  have hupdate : s.round.shouldUpdate k = false := decide_eq_false (by omega)
  have hidle : s.handleDelayedPayouts s.round.current = s := by
    unfold Storage.handleDelayedPayouts
    rw [hpayouts]
    split_ifs <;> rfl
  rw [openBlock_idle hupdate hidle]
  rfl

theorem blocksFrom_scored (hlength : k + n - s.round.first < s.round.length)
    (hpayouts : s.delayedPayouts = .empty) :
    (blocksFrom a k n).foldl Turn.next (s.scored a m) = s.scored a (m + n) := by
  induction n generalizing k m with
  | zero => rfl
  | succ n ih =>
    have hpair : (Turn.closeBlock a).next ((Turn.openBlock k).next (s.scored a m)) =
        s.scored a (m + 1) := by
      rw [pair_next (s := s.scored a m) (show k - s.round.first < s.round.length by omega) hpayouts]
      exact Storage.scored_succ s a m
    rw [blocksFrom, List.foldl_cons, List.foldl_cons, hpair, ih (by omega)]
    congr 1
    omega

theorem blocksFrom_next (hlength : k + (n + 1) - s.round.first < s.round.length)
    (hpayouts : s.delayedPayouts = .empty) :
    (blocksFrom a k (n + 1)).foldl Turn.next s = s.scored a (n + 1) := by
  rw [blocksFrom, List.foldl_cons, List.foldl_cons, pair_next (by omega) hpayouts,
    Storage.scored_one, blocksFrom_scored (by omega) hpayouts, Nat.add_comm]

theorem blocksFrom_twice {b : E.Account} {k' : ℕ} (hlength : k + (n + 1) - s.round.first <
      s.round.length) (hlength' : k' + (m + 1) - s.round.first < s.round.length)
    (hpayouts : s.delayedPayouts = .empty) :
    (blocksFrom a k (n + 1) ++ blocksFrom b k' (m + 1)).foldl Turn.next s =
      (s.scored a (n + 1)).scored b (m + 1) := by
  rw [List.foldl_append, blocksFrom_next hlength hpayouts]
  exact blocksFrom_next (s := s.scored a (n + 1)) hlength' hpayouts

theorem ne_other_of_mem_blocksFrom {t : Turn E} (h : t ∈ blocksFrom a k n) (world : E.World) :
    t ≠ .other world := by
  induction n generalizing k with
  | zero => cases h
  | succ n ih =>
    rcases List.mem_cons.mp h with rfl | h
    · simp
    · rcases List.mem_cons.mp h with rfl | h
      · simp
      · exact ih h

end Blocks

section Witness
open Staking.Sample

theorem economy_depositing (sizes : Sizes) : (economy sizes).Depositing where
  toLawful := economy_lawful sizes
  deposit_amount (w : Bank) _ _ _ _ h := (Bank.deposit_eq_some h).1
  deposit_free (w : Bank) _ _ _ _ h := (Bank.deposit_eq_some h).2.1
  deposit_lock (w : Bank) _ _ _ _ h _ _ := by
    have hlocks := (Bank.deposit_eq_some h).2.2
    exact congrFun (congrFun hlocks _) _

/-- All of the issuance is reserved, and all of it is a commission. -/
def doubled : List (Turn (economy ⟨1, 2, 1, 2⟩)) :=
  [caller 1 (.joinCandidates 10 0), caller 2 (.delegate (1 : ℕ) 20 0 0),
    .measure .root (.setParachainBondReservePercent (.fromParts _ 100)),
    .measure .root (.setCollatorCommission (.fromParts _ (10 ^ 9))), .openBlock 2,
    .closeBlock (1 : ℕ), .openBlock 3]

/-- Lists of turns in which nothing else changes the balances. -/
theorem lawful_play {E : Economy} {s : Storage E} {ms : List (Turn E)}
    (h : ∀ t ∈ ms, ∀ world, t ≠ .other world) :
    LawfulTurns s (trace Turn.next s ms) (ms.foldl Turn.next s) := by
  apply Run.play
  intro x hx
  have hmem := h x.2 (mem_of_trace hx)
  cases hx : x.2 with
  | other world => exact absurd hx (hmem world)
  | _ => trivial

theorem mem_trace_append {E : Economy} {s : Storage E} {ms ms' : List (Turn E)} {t : Turn E} :
    (ms.foldl Turn.next s, t) ∈ trace Turn.next s (ms ++ t :: ms') := by
  rw [trace_append]
  exact List.mem_append_right _ List.mem_cons_self

theorem minted_le_doubled : (later (10 ^ 8) (doubled ++ [.openBlock 4])).minted 2 ≤
    max ((later (10 ^ 8) doubled).issuanceOf 2)
      ((later (10 ^ 8) doubled).reserveOf 2 +
        (later (10 ^ 8) doubled).collatorCommission.mul ((later (10 ^ 8) doubled).issuanceOf 2)) +
      ((later (10 ^ 8) (doubled ++ [.openBlock 4])).credits 2).length :=
  minted_le (economy_proper (by decide)).placed (economy_depositing _) (build_eq (10 ^ 8))
    (lawful_play (by simp [doubled, caller])) mem_trace_append
    ⟨by decide +kernel, by decide +kernel⟩ (by decide +kernel)

/-- Four collators have the same four delegators, who all stake the same. -/
def crowd : List (Turn (economy ⟨1, 4, 4, 4⟩)) :=
  [caller 0 (.joinCandidates 10 0), caller 1 (.joinCandidates 10 1),
    caller 2 (.joinCandidates 10 2), caller 3 (.joinCandidates 10 3)] ++
  ([4, 5, 6, 7].flatMap fun d =>
    [0, 1, 2, 3].map fun c => caller d (.delegate (c : ℕ) 10 (d - 4) c)) ++
  [.call .root (.setTotalSelected 4), .openBlock 4, .closeBlock (0 : ℕ), .openBlock 5,
    .closeBlock (1 : ℕ), .openBlock 6, .closeBlock (2 : ℕ), .openBlock 7, .closeBlock (3 : ℕ)]

/-- The first block of a long round. -/
def early : List (Turn (economy ⟨1, 2 ^ 29, 1, 2⟩)) := [.openBlock (2 ^ 29), .closeBlock (1 : ℕ)]

/-- Two authors have so many blocks in the round that its points are at their maximum. -/
def saturated : List (Turn (economy ⟨1, 2 ^ 29, 1, 2⟩)) :=
  early ++ (blocksFrom (1 : ℕ) (2 ^ 29 + 1) (214748364 + 1) ++
    blocksFrom (2 : ℕ) (2 ^ 29 + 214748366) (214748364 + 1))

theorem later_saturated : later (10 ^ 8) saturated =
    ((later (10 ^ 8) early).scored (1 : ℕ) (214748364 + 1)).scored (2 : ℕ) (214748364 + 1) := by
  have hround : (later (10 ^ 8) early).round = ⟨2, 2 ^ 29, 2 ^ 29⟩ := rfl
  unfold saturated later
  rw [List.foldl_append]
  apply blocksFrom_twice
  · show _ - (later (10 ^ 8) early).round.first < (later (10 ^ 8) early).round.length
    rw [hround]
    decide
  · show _ - (later (10 ^ 8) early).round.first < (later (10 ^ 8) early).round.length
    rw [hround]
    decide
  · rfl

theorem saturated_ne_other : ∀ t ∈ saturated ++ [.openBlock (2 ^ 30), .openBlock (2 ^ 30 + 1)],
    ∀ world, t ≠ .other world := by
  intro t ht world
  simp only [saturated, early, List.mem_append] at ht
  rcases ht with (ht | ht | ht) | ht
  · intro h
    simp [h] at ht
  · exact ne_other_of_mem_blocksFrom ht world
  · exact ne_other_of_mem_blocksFrom ht world
  · intro h
    simp [h] at ht

/-- A delegation of nothing by account 3 stays when its state goes with account 2, which leaves, and
account 3 delegates to account 1 once more. -/
def haunted : List (Turn (economy ⟨0, 10, 2, 2⟩)) :=
  [caller 1 (.joinCandidates 10 0), caller 3 (.delegate (1 : ℕ) 0 0 0),
    caller 2 (.joinCandidates 10 1), caller 3 (.delegate (2 : ℕ) 5 0 1),
    caller 2 (.scheduleLeaveCandidates 2), .openBlock 10,
    caller 4 (.executeLeaveCandidates (2 : ℕ) 1), caller 3 (.delegate (1 : ℕ) 7 1 0),
    caller 3 (.scheduleDelegatorBondLess (1 : ℕ) 4), .openBlock 20]

/-- The accounts that are credited. -/
def credited {E : Economy} (s : Storage E) (r : ℕ) : List E.Account :=
  (s.noticesOf r).filterMap fun
    | .reservedForParachainBond _ account _ => some account
    | .rewarded _ account _ => some account
    | .onCollatorPayout _ _ _ => none

/-- On runtimes of a kind, what is minted for a round has a bound in the storage that its payout is
prepared from and in the storage later on, as long as there is a condition on the former. -/
def MintsWithin (kind : Runtime → Prop) (condition : ∀ {E : Economy}, ℕ → Storage E → Prop)
    (bound : ∀ {E : Economy}, ℕ → Storage E → Storage E → ℕ) : Prop :=
  ∀ E : Economy, kind E.toRuntime → E.Depositing →
    ∀ (config : GenesisConfig E) (world : E.World) (s₀ s : Storage E)
      (tr : List (Storage E × Turn E)) (r : ℕ) (x : Storage E × Turn E),
    config.build world = .ok s₀ → LawfulTurns s₀ tr s → x ∈ tr → x.2.Prepares r x.1 →
    condition r x.1 → s.minted r ≤ bound r x.1 s

/-- The reserve and the commission are together no more than the issuance. -/
def Moderate {E : Economy} (r : ℕ) (s : Storage E) : Prop :=
  s.reserveOf r + s.collatorCommission.mul (s.issuanceOf r) ≤ s.issuanceOf r

/-- The minimum of a delegation is positive, and a candidate has a place in each of its lists. -/
def Roomy (R : Runtime) : Prop :=
  0 < R.minDelegation ∧ 1 ≤ R.maxTopDelegationsPerCandidate ∧
    1 ≤ R.maxBottomDelegationsPerCandidate

theorem minted_above :
    ¬ MintsWithin Runtime.Proper (fun _ _ => True)
      (fun r s₁ s => s₁.issuanceOf r + (s.credits r).length) ∧
    ¬ MintsWithin Runtime.Proper Moderate
      (fun r s₁ s => s₁.issuanceOf r + (credited s r).dedup.length) ∧
    ¬ MintsWithin Runtime.Proper Moderate
      (fun r s₁ s => s₁.issuanceOf r + (s.credits r).length) ∧
    ¬ MintsWithin Roomy (fun r s₁ => Moderate r s₁ ∧ (s₁.points.get r).getD 0 < Storage.maxPoints)
      (fun r s₁ s => s₁.issuanceOf r + (s.credits r).length) := by
  refine ⟨?_, ?_, ?_, ?_⟩
  · intro h
    have hle := h _ (economy_proper (by decide)) (economy_depositing _) _ _ _
      (later (10 ^ 8) (doubled ++ [.openBlock 4])) _ 2 _ (build_eq (10 ^ 8))
      (lawful_play (by simp [doubled, caller])) mem_trace_append
      ⟨by decide +kernel, by decide +kernel⟩ trivial
    revert hle
    decide +kernel
  · intro h
    have hle := h _ (economy_proper (by decide)) (economy_depositing _) _ _ _
      (later 1100000 (crowd ++ [.openBlock 8, .openBlock 9, .openBlock 10, .openBlock 11])) _ 2 _
      (build_eq 1100000) (lawful_play (by simp [crowd, caller])) mem_trace_append
      ⟨by decide +kernel, by decide +kernel⟩ (by unfold Moderate; decide +kernel)
    revert hle
    decide +kernel
  · intro h
    have hlater := later_saturated
    unfold later at hlater
    have hle := h _ (economy_proper (by decide)) (economy_depositing _) _ _ _
      (later (10 ^ 8) (saturated ++ [.openBlock (2 ^ 30), .openBlock (2 ^ 30 + 1)])) _ 2 _
      (build_eq (10 ^ 8)) (lawful_play saturated_ne_other) mem_trace_append
      (by rw [hlater]; exact ⟨by decide +kernel, by decide +kernel⟩)
      (by rw [hlater]; unfold Moderate; decide +kernel)
    unfold later at hle
    rw [List.foldl_append, hlater] at hle
    revert hle
    decide +kernel
  · intro h
    have hle := h (economy ⟨0, 10, 2, 2⟩) ⟨by decide, by decide, by decide⟩ (economy_depositing _)
      _ _ _ (later (10 ^ 8) (haunted ++ [.closeBlock (1 : ℕ)] ++ [.openBlock 30])) _ 3 _
      (build_eq (10 ^ 8)) (lawful_play (by simp [haunted, caller])) mem_trace_append
      ⟨by decide +kernel, by decide +kernel⟩
      ⟨by unfold Moderate; decide +kernel, by decide +kernel⟩
    revert hle
    decide +kernel

end Witness
end Staking
end ZkNft
