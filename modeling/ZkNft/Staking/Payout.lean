import ZkNft.Staking.Blocks
import Mathlib.Logic.Relation

/-! What the hooks of a block do to the payouts: one is prepared when a round begins, and one
collator is drawn in every block. -/

namespace ZkNft
namespace Staking
open StorageMap

variable {E : Economy}

/-- The balances after some deposits. -/
def Economy.Deposits (E : Economy) : E.World → E.World → Prop :=
  Relation.ReflTransGen fun w w' => ∃ account amount imbalance,
    E.depositIntoExisting w account amount = some (imbalance, w')

namespace Notice
variable {A : Type}

def round : Notice A → ℕ
  | reservedForParachainBond r _ _ => r
  | rewarded r _ _ => r
  | onCollatorPayout r _ _ => r

/-- The collator that is paid. -/
def payee : Notice A → Option A
  | reservedForParachainBond _ _ _ => none
  | rewarded _ _ _ => none
  | onCollatorPayout _ collator _ => some collator

end Notice

namespace Storage

/-- The storage with other balances and new notices. -/
def paid (s : Storage E) (world : E.World) (new : List (Notice E.Account)) : Storage E :=
  { s with world, notices := s.notices ++ new }

section Paid
variable {s : Storage E} {w w' : E.World} {new new' : List (Notice E.Account)}

theorem paid_nil : s.paid s.world [] = s := by
  unfold paid
  rw [List.append_nil]

theorem paid_paid : (s.paid w new).paid w' new' = s.paid w' (new ++ new') := by
  unfold paid
  rw [List.append_assoc]

end Paid

section Mint
variable {r : ℕ} {c : E.Account}

theorem mint_cases (s : Storage E) (r n : ℕ) (a : E.Account) :
    E.depositIntoExisting s.world a n = none ∧ s.mint r n a = s ∨
    ∃ k w, E.depositIntoExisting s.world a n = some (k, w) ∧
      s.mint r n a = s.paid w [.rewarded r a k] := by
  unfold mint deposit
  cases h : E.depositIntoExisting s.world a n with
  | none => exact .inl ⟨rfl, rfl⟩
  | some x => exact .inr ⟨x.1, x.2, rfl, rfl⟩

/-- The notices are of rewards for the round. -/
def Rewards (r : ℕ) (new : List (Notice E.Account)) : Prop :=
  ∀ x ∈ new, ∃ a k, x = .rewarded r a k

theorem mint_paid (s : Storage E) (r n : ℕ) (a : E.Account) : ∃ w new,
    s.mint r n a = s.paid w new ∧ E.Deposits s.world w ∧ Rewards r new := by
  rcases mint_cases s r n a with ⟨-, h⟩ | ⟨k, w, hw, h⟩
  · refine ⟨s.world, [], h.trans paid_nil.symm, .refl, ?_⟩
    intro x hx
    cases hx
  · refine ⟨w, _, h, .single ⟨a, n, k, hw⟩, ?_⟩
    intro x hx
    exact ⟨a, k, List.mem_singleton.mp hx⟩

theorem payDelegators_paid (r amountDue total : ℕ) (bonds : List (Bond E.Account))
    (s : Storage E) : ∃ w new,
    payDelegators r amountDue total s bonds = s.paid w new ∧ E.Deposits s.world w ∧
      Rewards r new := by
  induction bonds generalizing s with
  | nil =>
    refine ⟨s.world, [], paid_nil.symm, .refl, ?_⟩
    intro x hx
    cases hx
  | cons x bonds ih =>
    unfold payDelegators
    dsimp only
    split_ifs
    · exact ih s
    · obtain ⟨w, new, hmint, hw, hnew⟩ :=
        mint_paid s r ((Perbill.fromRational x.amount total).mul amountDue) x.owner
      obtain ⟨w', new', hrest, hw', hnew'⟩ := ih (s.paid w new)
      rw [hmint, hrest, paid_paid]
      refine ⟨w', new ++ new', rfl, hw.trans hw', ?_⟩
      intro y hy
      rcases List.mem_append.mp hy with hy | hy
      · exact hnew y hy
      · exact hnew' y hy

/-- What is noticed of a payment: one call of `on_collator_payout`, among rewards. -/
def Payment (r : ℕ) (c : E.Account) (new : List (Notice E.Account)) : Prop :=
  ∃ n before after, new = before ++ .onCollatorPayout r c n :: after ∧ Rewards r before ∧
    Rewards r after

/-- The snapshot of a collator is taken. -/
def takeSnapshot (s : Storage E) (r : ℕ) (c : E.Account) : Storage E :=
  { s with atStake := fun r' => if r' = r then (s.atStake r').remove c else s.atStake r' }

/-- A collator is paid, and then delegators are. -/
theorem payAll_paid (s : Storage E) (r n amountDue total : ℕ) (c : E.Account)
    (bonds : List (Bond E.Account)) : ∃ w new,
    payDelegators r amountDue total ((s.mint r n c).onCollatorPayout r c n) bonds = s.paid w new ∧
      E.Deposits s.world w ∧ Payment r c new := by
  obtain ⟨w, new, hmint, hw, hnew⟩ := mint_paid s r n c
  have hpaid : (s.mint r n c).onCollatorPayout r c n =
      s.paid w (new ++ [.onCollatorPayout r c n]) := by
    rw [hmint, ← paid_paid]
    rfl
  obtain ⟨w', new', hrest, hw', hnew'⟩ :=
    payDelegators_paid r amountDue total bonds (s.paid w (new ++ [.onCollatorPayout r c n]))
  rw [hpaid, hrest, paid_paid]
  exact ⟨w', _, rfl, hw.trans hw', n, new, new', List.append_assoc _ _ _, hnew, hnew'⟩

theorem payCollator_paid (s : Storage E) (payout : DelayedPayout) (totalPoints pts : ℕ) :
    ∃ w new, (s.payCollator r payout totalPoints c pts).1 = (s.takeSnapshot r c).paid w new ∧
      E.Deposits s.world w ∧ Payment r c new := by
  unfold payCollator
  dsimp only
  split_ifs
  · exact payAll_paid (s.takeSnapshot r c) r _ 0 0 c []
  · exact payAll_paid (s.takeSnapshot r c) r _ _ _ c _

end Mint

section Steps
variable {s : Storage E} {now r : ℕ}

/-- The entries of a round, where the first is drained. -/
def drain (s : Storage E) (r : ℕ) (rest : List (E.Account × ℕ)) : Storage E :=
  { s with awardedPts := fun r' => if r' = r then rest else s.awardedPts r' }

/-- A block of the round that pays round `r`: nothing is due, all is paid, or one collator is
drawn. -/
inductive Handled (s : Storage E) (r : ℕ) : Storage E → Prop where
  | idle (h : s.delayedPayouts.get r = none) : Handled s r s
  | clean {payout : DelayedPayout} (h : s.delayedPayouts.get r = some payout)
    (hdone : (s.points.get r).getD 0 = 0 ∨ s.awardedPts r = []) :
    Handled s r { s with
      delayedPayouts := s.delayedPayouts.remove r
      points := s.points.remove r }
  | draw {payout : DelayedPayout} {c : E.Account} {pts : ℕ} {rest : List (E.Account × ℕ)}
    (h : s.delayedPayouts.get r = some payout) (hpoints : (s.points.get r).getD 0 ≠ 0)
    (hfirst : s.awardedPts r = (c, pts) :: rest) :
    Handled s r ((s.drain r rest).payCollator r payout ((s.points.get r).getD 0) c pts).1

theorem handleDelayedPayouts_cases (s : Storage E) (now : ℕ) :
    now < E.rewardPaymentDelay ∧ s.handleDelayedPayouts now = s ∨
    ∃ r, now = r + E.rewardPaymentDelay ∧ Handled s r (s.handleDelayedPayouts now) := by
  unfold handleDelayedPayouts
  by_cases hnow : now < E.rewardPaymentDelay
  · exact .inl ⟨hnow, if_pos hnow⟩
  · refine .inr ⟨now - E.rewardPaymentDelay, by omega, ?_⟩
    rw [if_neg hnow]
    dsimp only
    generalize now - E.rewardPaymentDelay = r
    cases h : s.delayedPayouts.get r with
    | none => exact .idle h
    | some payout =>
      dsimp only
      unfold payOneCollatorReward
      dsimp only
      by_cases hpoints : (s.points.get r).getD 0 = 0
      · rw [if_pos hpoints]
        exact .clean h (.inl hpoints)
      · rw [if_neg hpoints]
        cases hfirst : s.awardedPts r with
        | nil => exact .clean h (.inr hfirst)
        | cons x rest => exact .draw h hpoints hfirst

/-- What is paid for round `r`, at the prices of the block that prepares it. -/
def issuanceOf (s : Storage E) (r : ℕ) : ℕ := s.computeIssuance ((s.staked.get r).getD 0)

/-- What is reserved for the parachain bond out of it. -/
def reserveOf (s : Storage E) (r : ℕ) : ℕ := s.parachainBondInfo.percent.mul (s.issuanceOf r)

/-- The block that begins the round that pays round `r`. -/
inductive Prepared (s : Storage E) (r : ℕ) : Storage E → Prop where
  | idle (h : (s.points.get r).getD 0 = 0) : Prepared s r s
  | whole (h : (s.points.get r).getD 0 ≠ 0)
    (hdeposit : E.depositIntoExisting s.world s.parachainBondInfo.account (s.reserveOf r) = none) :
    Prepared s r { s with
      staked := s.staked.remove r
      delayedPayouts := s.delayedPayouts.insert r
        ⟨s.issuanceOf r, s.issuanceOf r, s.collatorCommission⟩ }
  | reserved {k : ℕ} {w : E.World} (h : (s.points.get r).getD 0 ≠ 0)
    (hdeposit : E.depositIntoExisting s.world s.parachainBondInfo.account (s.reserveOf r) =
      some (k, w)) :
    Prepared s r { s.paid w [.reservedForParachainBond r s.parachainBondInfo.account k] with
      staked := s.staked.remove r
      delayedPayouts := s.delayedPayouts.insert r
        ⟨s.issuanceOf r, s.issuanceOf r - k, s.collatorCommission⟩ }

theorem prepareStakingPayouts_cases (s : Storage E) (now : ℕ) :
    now ≤ E.rewardPaymentDelay ∧ s.prepareStakingPayouts now = s ∨
    ∃ r, now = r + E.rewardPaymentDelay ∧ 0 < r ∧ Prepared s r (s.prepareStakingPayouts now) := by
  unfold prepareStakingPayouts
  by_cases hnow : now ≤ E.rewardPaymentDelay
  · exact .inl ⟨hnow, if_pos hnow⟩
  · refine .inr ⟨now - E.rewardPaymentDelay, by omega, by omega, ?_⟩
    rw [if_neg hnow]
    dsimp only
    generalize now - E.rewardPaymentDelay = r
    by_cases hpoints : (s.points.get r).getD 0 = 0
    · rw [if_pos hpoints]
      exact .idle hpoints
    · rw [if_neg hpoints]
      cases hdeposit :
          E.depositIntoExisting s.world s.parachainBondInfo.account (s.reserveOf r) with
      | none =>
        have hnone : Storage.deposit { s with staked := s.staked.remove r }
            (.reservedForParachainBond r s.parachainBondInfo.account)
            s.parachainBondInfo.account (s.reserveOf r) =
            ({ s with staked := s.staked.remove r }, none) := by
          unfold deposit
          rw [hdeposit]
        exact hnone.symm ▸ Prepared.whole hpoints hdeposit
      | some x =>
        have hsome : Storage.deposit { s with staked := s.staked.remove r }
            (.reservedForParachainBond r s.parachainBondInfo.account)
            s.parachainBondInfo.account (s.reserveOf r) =
            ({ s.paid x.2 [.reservedForParachainBond r s.parachainBondInfo.account x.1] with
              staked := s.staked.remove r }, some x.1) := by
          unfold deposit
          rw [hdeposit]
          rfl
        exact hsome.symm ▸ Prepared.reserved hpoints hdeposit

end Steps

/-- A step of the payout of round `r` leaves the other rounds and the stakes alone. -/
structure PayoutStep (r : ℕ) (s s' : Storage E) : Prop where
  stakes : ∃ w, E.Deposits s.world w ∧ s'.toState = { s.toState with world := w }
  selected : s'.selectedCandidates = s.selectedCandidates
  atStake : ∀ r', r' ≠ r → s'.atStake r' = s.atStake r'
  payouts : ∀ r', r' ≠ r → s'.delayedPayouts.get r' = s.delayedPayouts.get r'
  points : ∀ r', r' ≠ r → s'.points.get r' = s.points.get r'
  awarded : ∀ r', r' ≠ r → s'.awardedPts r' = s.awardedPts r'
  notices : ∃ new, s'.notices = s.notices ++ new ∧ ∀ x ∈ new, x.round = r

theorem PayoutStep.refl (r : ℕ) (s : Storage E) : PayoutStep r s s :=
  ⟨⟨s.world, .refl, rfl⟩, rfl, fun _ _ => rfl, fun _ _ => rfl, fun _ _ => rfl, fun _ _ => rfl,
    [], (List.append_nil _).symm, by simp⟩

theorem Payment.round {r : ℕ} {c : E.Account} {new : List (Notice E.Account)}
    (h : Payment r c new) : ∀ x ∈ new, x.round = r := by
  obtain ⟨n, before, after, rfl, hbefore, hafter⟩ := h
  have hrewards : ∀ {l : List (Notice E.Account)}, Rewards r l → ∀ x ∈ l, x.round = r := by
    intro l hl x hx
    obtain ⟨a, k, rfl⟩ := hl x hx
    rfl
  intro x hx
  rcases List.mem_append.mp hx with hx | hx
  · exact hrewards hbefore x hx
  · rcases List.mem_cons.mp hx with rfl | hx
    · rfl
    · exact hrewards hafter x hx

section Steps
variable {s s' : Storage E} {r : ℕ}

theorem Handled.step (h : Handled s r s') : PayoutStep r s s' := by
  cases h with
  | idle => exact .refl r s
  | clean h =>
    exact ⟨⟨s.world, .refl, rfl⟩, rfl, fun _ _ => rfl, fun r' hr => get_remove_of_ne _ hr,
      fun r' hr => get_remove_of_ne _ hr, fun _ _ => rfl, [], (List.append_nil _).symm, by simp⟩
  | @draw payout c pts rest h hpoints hfirst =>
    obtain ⟨w, new, hpay, hw, hnew⟩ :=
      payCollator_paid (r := r) (c := c) (s.drain r rest) payout ((s.points.get r).getD 0) pts
    rw [hpay]
    exact ⟨⟨w, hw, rfl⟩, rfl, fun r' hr => if_neg hr, fun _ _ => rfl, fun _ _ => rfl,
      fun r' hr => if_neg hr, new, rfl, hnew.round⟩

theorem Prepared.step (h : Prepared s r s') : PayoutStep r s s' := by
  cases h with
  | idle => exact .refl r s
  | whole =>
    exact ⟨⟨s.world, .refl, rfl⟩, rfl, fun _ _ => rfl, fun r' hr => get_insert_of_ne _ _ hr,
      fun _ _ => rfl, fun _ _ => rfl, [], (List.append_nil _).symm, by simp⟩
  | reserved _ hdeposit =>
    refine ⟨⟨_, .single ⟨_, _, _, hdeposit⟩, rfl⟩, rfl, fun _ _ => rfl,
      fun r' hr => get_insert_of_ne _ _ hr, fun _ _ => rfl, fun _ _ => rfl, _, rfl, ?_⟩
    intro x hx
    rw [List.mem_singleton.mp hx]
    rfl

theorem Prepared.atStake (h : Prepared s r s') : s'.atStake = s.atStake := by
  cases h <;> rfl

end Steps

end Storage
end Staking
end ZkNft
