import ZkNft.Staking.Minting
import ZkNft.Staking.TopCandidates

/-! The snapshots of a round, which add up: the total is the bond and what the delegations count. -/

namespace ZkNft
namespace Staking
open Keyed StorageMap

variable {E : Economy}

/-- The total is the bond and the delegations, whose shares with that of the collator are at most
one. -/
structure CollatorSnapshot.AddsUp {A : Type} (x : CollatorSnapshot A) : Prop where
  total : x.total = x.bond + (x.delegations.map Bond.amount).sum
  shares : (Perbill.fromRational x.bond x.total).parts +
    (x.delegations.map fun b => (Perbill.fromRational b.amount x.total).parts).sum ≤ 10 ^ 9

theorem CollatorSnapshot.AddsUp.of_total {A : Type} {x : CollatorSnapshot A}
    (h : x.total = x.bond + amounts x.delegations) : x.AddsUp := by
  refine ⟨h, ?_⟩
  have hle : (x.bond :: x.delegations.map Bond.amount).sum ≤ x.total := by
    rw [List.sum_cons]
    exact Nat.le_of_eq h.symm
  have hshares : (((x.bond :: x.delegations.map Bond.amount).map fun p =>
      Perbill.fromRational p x.total).map PerThing.parts).sum ≤ 10 ^ 9 :=
    PerThing.sum_fromRational_le hle
  rw [List.map_cons, List.map_cons, List.sum_cons, List.map_map, List.map_map] at hshares
  exact hshares

/-- A delegation counts with what its delegator's pending request leaves of it. -/
structure Reduced {A : Type} (requests : List (ScheduledRequest A)) (bond rewardable : Bond A) :
    Prop where
  owner : rewardable.owner = bond.owner
  whole : (∀ r ∈ requests, r.delegator ≠ bond.owner) → rewardable.amount = bond.amount
  revoke : ∀ r ∈ requests, r.delegator = bond.owner → ∀ n, r.action = .revoke n →
    rewardable.amount = 0
  decrease : ∀ r ∈ requests, r.delegator = bond.owner → ∀ n, r.action = .decrease n →
    rewardable.amount + n = bond.amount

namespace Storage

section Count
variable {requests : List (ScheduledRequest E.Account)} {bonds : List (Bond E.Account)}

theorem requestOf_eq_none {d : E.Account} (h : requestOf requests d = none) :
    ∀ r ∈ requests, r.delegator ≠ d := by
  intro r hr hd
  unfold requestOf at h
  have hnil := List.getLast?_eq_none_iff.mp (Option.map_eq_none_iff.mp h)
  have hmem : r ∈ requests.filter fun x => x.delegator = d :=
    List.mem_filter.mpr ⟨hr, decide_eq_true hd⟩
  rw [hnil] at hmem
  cases hmem

/-- The last request of a delegator is its only one. -/
theorem requestOf_unique (hone : Distinct ScheduledRequest.delegator requests) {d : E.Account}
    {action : DelegationAction} (h : requestOf requests d = some action) :
    ∀ r ∈ requests, r.delegator = d → r.action = action := by
  intro r hr hd
  obtain ⟨q, hq, hqd, haction⟩ := requestOf_eq_some h
  have heq : r = q := hone.eq_of_key hr hq (hd.trans hqd.symm)
  rw [heq]
  exact haction

variable (h : ∀ x ∈ bonds, ∀ n,
  requestOf requests x.owner = some (.decrease n) → n ≤ x.amount)

include h in
/-- What is counted of the delegations and what is not are all there is. -/
theorem countDelegations_eq (u : ℕ) (hfits : u + amounts bonds ≤ maxBalance) :
    amounts (countDelegations requests u bonds).2 + (countDelegations requests u bonds).1 =
      u + amounts bonds := by
  induction bonds generalizing u with
  | nil => exact Nat.add_comm 0 u
  | cons x bonds ih =>
    have ⟨hx, hrest⟩ := List.forall_mem_cons.mp h
    rw [amounts_cons] at hfits
    unfold countDelegations
    cases hrequest : requestOf requests x.owner with
    | none =>
      have heq := ih hrest u (by omega)
      simp only [amounts_cons]
      omega
    | some action =>
      cases action with
      | revoke n =>
        have hsum : satAdd u x.amount = u + x.amount := satAdd_eq (by omega)
        have heq := ih hrest (u + x.amount) (by omega)
        simp only [amounts_cons, hsum]
        omega
      | decrease n =>
        have hn := hx n hrequest
        have hsum : satAdd u n = u + n := satAdd_eq (by omega)
        have heq := ih hrest (u + n) (by omega)
        simp only [amounts_cons, hsum]
        omega

include h in
theorem countDelegations_reduced (hone : Distinct ScheduledRequest.delegator requests) (u : ℕ) :
    List.Forall₂ (Reduced requests) bonds (countDelegations requests u bonds).2 := by
  induction bonds generalizing u with
  | nil => exact .nil
  | cons x bonds ih =>
    have ⟨hx, hrest⟩ := List.forall_mem_cons.mp h
    unfold countDelegations
    cases hrequest : requestOf requests x.owner with
    | none =>
      have hnone := requestOf_eq_none hrequest
      refine .cons ⟨rfl, fun _ => rfl, ?_, ?_⟩ (ih hrest u)
      · intro r hr hd
        exact absurd hd (hnone r hr)
      · intro r hr hd
        exact absurd hd (hnone r hr)
    | some action =>
      have hunique := requestOf_unique hone hrequest
      obtain ⟨q, hq, hqd, -⟩ := requestOf_eq_some hrequest
      cases action with
      | revoke n =>
        refine .cons ⟨rfl, ?_, fun _ _ _ _ _ => rfl, ?_⟩ (ih hrest _)
        · intro hnone
          exact absurd hqd (hnone q hq)
        · intro r hr hd k hk
          rw [hunique r hr hd] at hk
          cases hk
      | decrease n =>
        have hn := hx n hrequest
        refine .cons ⟨rfl, ?_, ?_, ?_⟩ (ih hrest _)
        · intro hnone
          exact absurd hqd (hnone q hq)
        · intro r hr hd k hk
          rw [hunique r hr hd] at hk
          cases hk
        · intro r hr hd k hk
          rw [hunique r hr hd] at hk
          cases hk
          exact Nat.sub_add_cancel hn

end Count

/-- What a snapshot counts: the bond of a collator, and its top delegations. -/
structure Counts (s : Storage E) (c : E.Account) (x : CollatorSnapshot E.Account) : Prop where
  bond : ∃ m, s.candidateInfo.get c = some m ∧ x.bond = m.bond
  delegations : ∃ top, s.topDelegations.get c = some top ∧
    List.Forall₂ (Reduced (s.delegationScheduledRequests c)) top.delegations x.delegations

section Exposes
variable {c : E.Account} {x : CollatorSnapshot E.Account}

theorem Exposes.addsUp (hL : E.toRuntime.Lawful) {s : State E.toRuntime} (hs : Accounted s)
    (h : Exposes s c x) : x.AddsUp := by
  obtain ⟨hm, htop⟩ := h
  obtain ⟨hcount, hmax⟩ := totalCounted_eq hL hs hm htop
  have heq := countDelegations_eq (fun x hx n hn => decrease_le_top hs hm htop hx hn) 0 (by omega)
  apply CollatorSnapshot.AddsUp.of_total
  dsimp only
  omega

theorem Exposes.counts {s : Storage E} (hs : Accounted s.toState)
    (h : Exposes s.toState c x) : s.Counts c x := by
  obtain ⟨hm, htop⟩ := h
  have hone := (hs.cached.sound.books.requests c).distinct
  have hreduced := countDelegations_reduced
    (fun x hx n hn => decrease_le_top hs hm htop hx hn) hone 0
  exact ⟨⟨_, hm, rfl⟩, ⟨_, htop, hreduced⟩⟩

end Exposes

/-- The snapshot of a collator in round `now` is of the storage as it is. -/
def Shown (now : ℕ) (s : Storage E) (c : E.Account) : Prop :=
  ∃ x, (s.atStake now).get c = some x ∧ Exposes s.toState c x

section Shown
variable {s s' : Storage E} {now : ℕ}

theorem snapshotAll_shown {accounts : List E.Account}
    (h : snapshotAll now s accounts = .ok s') {c : E.Account}
    (hc : c ∈ accounts ∨ s.Shown now c) : s'.Shown now c := by
  induction accounts generalizing s with
  | nil =>
    obtain rfl := Exec.ok.inj h
    exact hc.resolve_left List.not_mem_nil
  | cons b accounts ih =>
    obtain ⟨m, hm, h⟩ := Exec.bind_eq_ok.mp h
    obtain ⟨counted, hcounted, h⟩ := Exec.bind_eq_ok.mp h
    obtain ⟨top, htop, hcounted⟩ := Exec.bind_eq_ok.mp hcounted
    obtain rfl := Exec.ok.inj hcounted
    apply ih h
    by_cases hb : c = b
    · right
      rw [hb]
      refine ⟨_, ?_, .mk (Exec.expect_eq_ok.mp hm) (Exec.expect_eq_ok.mp htop)⟩
      dsimp only
      rw [if_pos rfl]
      exact get_insert_self _ _ _
    · rcases hc with hc | ⟨x, hx, hexposes⟩
      · exact .inl ((List.mem_cons.mp hc).resolve_left hb)
      · right
        refine ⟨x, ?_, hexposes⟩
        dsimp only
        rw [if_pos rfl, get_insert_of_ne _ _ hb]
        exact hx

theorem selectTopCandidates_shown (h : s.selectTopCandidates now = .ok s') :
    ∀ c ∈ s.computeTopCandidates, s'.Shown now c := by
  unfold selectTopCandidates at h
  split at h
  · rename_i hnone
    intro c hc
    rw [hnone] at hc
    cases hc
  · obtain ⟨s₁, hall, h⟩ := Exec.bind_eq_ok.mp h
    obtain rfl := Exec.ok.inj h
    intro c hc
    exact snapshotAll_shown hall (.inl hc)

/-- Where nobody is selected anew, the snapshots of the round before are those of this round. -/
theorem selectTopCandidates_repeats (h : s.selectTopCandidates now = .ok s')
    (hnone : s.computeTopCandidates = []) :
    ∀ c x, (s.atStake (now - 1)).get c = some x → (s'.atStake now).get c = some x := by
  intro c x hx
  unfold selectTopCandidates at h
  rw [hnone] at h
  obtain ⟨_, -, h⟩ := Exec.bind_eq_ok.mp h
  obtain rfl := Exec.ok.inj h
  have hnow : (s.repeatSnapshots now).atStake now = ⟨fun account =>
      ((s.atStake (now - 1)).get account).or ((s.atStake now).get account)⟩ := if_pos rfl
  rw [hnow]
  show ((s.atStake (now - 1)).get c).or _ = _
  rw [hx]
  rfl

end Shown

/-- The selection for round `now`: all who are selected have snapshots, which add up and count what
the storage holds. -/
structure Selected (now : ℕ) (s : Storage E) : Prop where
  selected : s.computeTopCandidates ≠ [] → s.selectedCandidates = s.computeTopCandidates
  snapshot : ∀ c ∈ s.computeTopCandidates, ∃ x, (s.atStake now).get c = some x ∧
    x.AddsUp ∧ s.Counts c x

section Selected
variable {s s' : Storage E} {now : ℕ}

theorem selectTopCandidates_selects (hL : E.toRuntime.Lawful) (hs : Accounted s.toState)
    (h : s.selectTopCandidates now = .ok s') : s'.Selected now := by
  have hselected := selectTopCandidates_selected h
  have hshown := selectTopCandidates_shown h
  obtain ⟨atStake, selected, rfl⟩ := (selectTopCandidates_ok h).same
  constructor
  · intro hsome
    exact hselected.trans (if_neg hsome)
  · intro c hc
    obtain ⟨x, hx, hexposes⟩ := hshown c hc
    exact ⟨x, hx, hexposes.addsUp hL hs, hexposes.counts hs⟩

theorem computeTopCandidates_congr (hpool : s'.candidatePool = s.candidatePool)
    (htotal : s'.totalSelected = s.totalSelected) :
    s'.computeTopCandidates = s.computeTopCandidates := by
  unfold computeTopCandidates
  rw [hpool, htotal]

/-- Neither the balances nor the round matter. -/
theorem Selected.elsewhere (hs : s.Selected now) {world : E.World} {round : RoundInfo}
    (hstakes : s'.toState = { s.toState with world, round })
    (hselected : s'.selectedCandidates = s.selectedCandidates)
    (hatStake : s'.atStake now = s.atStake now) : s'.Selected now := by
  have htop : s'.computeTopCandidates = s.computeTopCandidates := by
    apply computeTopCandidates_congr
    · rw [hstakes]
    · rw [hstakes]
  constructor
  · rw [htop, hselected]
    exact hs.selected
  · rw [htop, hatStake]
    intro c hc
    obtain ⟨x, hx, hadds, hbond, hdelegations⟩ := hs.snapshot c hc
    refine ⟨x, hx, hadds, ?_, ?_⟩
    · rw [hstakes]
      exact hbond
    · rw [hstakes]
      exact hdelegations

/-- The payouts of a block leave the snapshots of a round that has no payout yet. -/
theorem handleDelayedPayouts_current (hnone : E.rewardPaymentDelay = 0 →
      s.delayedPayouts.get now = none) : ∃ world,
    (s.handleDelayedPayouts now).toState = { s.toState with world } ∧
    (s.handleDelayedPayouts now).selectedCandidates = s.selectedCandidates ∧
    (s.handleDelayedPayouts now).atStake now = s.atStake now := by
  rcases s.handleDelayedPayouts_cases now with ⟨-, h⟩ | ⟨r, hr, h⟩
  · rw [h]
    exact ⟨s.world, rfl, rfl, rfl⟩
  · by_cases hnow : now = r
    · have hzero : E.rewardPaymentDelay = 0 := by omega
      generalize s.handleDelayedPayouts now = s' at h ⊢
      rw [← hnow] at h
      cases h with
      | idle => exact ⟨s.world, rfl, rfl, rfl⟩
      | clean hsome =>
        rw [hnone hzero] at hsome
        cases hsome
      | draw hsome =>
        rw [hnone hzero] at hsome
        cases hsome
    · obtain ⟨w, -, hstakes⟩ := h.step.stakes
      exact ⟨w, hstakes, h.step.selected, h.step.atStake now hnow⟩

/-- Without a delay, there is nothing to be paid for a round that begins. -/
theorem prepareStakingPayouts_ahead (hpay : Payable s.round.current s)
    (hzero : E.rewardPaymentDelay = 0) :
    (s.prepareStakingPayouts (s.round.current + 1)).delayedPayouts.get (s.round.current + 1) =
      none := by
  have hnone := (hpay.pending (s.round.current + 1) (by omega)).1
  rcases s.prepareStakingPayouts_cases (s.round.current + 1) with ⟨-, h⟩ | ⟨r, hr, -, h⟩
  · rw [h]
    exact hnone
  · have hround : r = s.round.current + 1 := by omega
    have hpoints : (s.points.get r).getD 0 = 0 := by
      rw [hpay.ahead r (by omega)]
      rfl
    generalize s.prepareStakingPayouts (s.round.current + 1) = s' at h ⊢
    cases h with
    | idle => exact hnone
    | whole hsome => exact absurd hpoints hsome
    | reserved hsome => exact absurd hpoints hsome

/-- What the selection has made of the snapshots when the payouts of the block are through. -/
theorem begun_selects (hL : E.toRuntime.Lawful) (hs : Accounted s.toState) {s₁ : Storage E}
    (hnone : E.rewardPaymentDelay = 0 → s.delayedPayouts.get now = none)
    (hselect : s.selectTopCandidates now = .ok s₁) {round : RoundInfo}
    {staked : StorageMap ℕ ℕ}
    (hs' : s' = Storage.handleDelayedPayouts { s₁ with round, staked } now) :
    s'.round = round ∧ s'.Selected now ∧ (s'.computeTopCandidates = [] →
      s'.selectedCandidates = s.selectedCandidates ∧
      ∀ c x, (s.atStake (now - 1)).get c = some x → (s'.atStake now).get c = some x) := by
  have hselects := selectTopCandidates_selects hL hs hselect
  have hkeeps := selectTopCandidates_selected hselect
  have hrepeats := selectTopCandidates_repeats hselect
  obtain ⟨atStake, selected, rfl⟩ := (selectTopCandidates_ok hselect).same
  obtain ⟨w, hstakes, hselected, hatStake⟩ := handleDelayedPayouts_current
    (s := { s with atStake, selectedCandidates := selected, round, staked }) hnone
  rw [← hs'] at hstakes hselected hatStake
  refine ⟨?_, hselects.elsewhere hstakes hselected hatStake, ?_⟩
  · rw [hstakes]
  · intro hempty
    have htop : s.computeTopCandidates = [] := by
      rw [← hempty]
      symm
      apply computeTopCandidates_congr
      · rw [hstakes]
      · rw [hstakes]
    constructor
    · rw [hselected]
      exact hkeeps.trans (if_pos htop)
    · rw [hatStake]
      exact hrepeats htop

/-- A block that begins a round. -/
theorem onInitialize_selects (hE : E.Depositing) (hs : Accounted s.toState)
    (hpay : Payable s.round.current s) {n : ℕ} (hnew : s.round.shouldUpdate n = true)
    (h : s.onInitialize n = .ok s') : s'.round.current = s.round.current + 1 ∧
      s'.Selected (s.round.current + 1) ∧ (s'.computeTopCandidates = [] →
        s'.selectedCandidates = s.selectedCandidates ∧
        ∀ c x, (s.atStake s.round.current).get c = some x →
          (s'.atStake (s.round.current + 1)).get c = some x) := by
  cases onInitialize_ok h with
  | same hsame =>
    rw [hnew] at hsame
    cases hsame
  | begins _ hselect =>
    obtain ⟨w, hw, hprepared, hselected, hatStake⟩ := Steady.prepared s (s.round.current + 1)
    have haccounted : Accounted (s.prepareStakingPayouts (s.round.current + 1)).toState := by
      rw [hprepared]
      exact Exposed.deposits hE hs hw s.round s.totalSelected
    obtain ⟨hround, hselects, hrepeats⟩ := begun_selects hE.toLawful haccounted
      (prepareStakingPayouts_ahead hpay) hselect rfl
    rw [hselected, hatStake] at hrepeats
    exact ⟨congrArg RoundInfo.current hround, hselects, hrepeats⟩

end Selected
end Storage

/-- In every state reached, the snapshots of all rounds add up, and those that a round begins with
count the bonds and what pending requests leave of the top delegations. -/
theorem snapshots_add_up (hR : E.toRuntime.Placed) (hE : E.Depositing) {config : GenesisConfig E}
    {world : E.World} {s₀ s : Storage E} (hbuild : config.build world = .ok s₀)
    {tr : List (Storage E × Turn E)} (h : LawfulTurns s₀ tr s) :
    (∀ r c x, (s.atStake r).get c = some x → x.AddsUp) ∧ s₀.Selected 1 ∧
    ∀ n s', s.round.shouldUpdate n = true → s.onInitialize n = .ok s' →
      s'.round.current = s.round.current + 1 ∧ s'.Selected (s.round.current + 1) ∧
      (s'.computeTopCandidates = [] → s'.selectedCandidates = s.selectedCandidates ∧
        ∀ c x, (s.atStake s.round.current).get c = some x →
          (s'.atStake (s.round.current + 1)).get c = some x) := by
  have hexposed : Exposed CollatorSnapshot.AddsUp s :=
    .reached (fun _ hs _ _ h => h.addsUp hE.toLawful hs) hR hE hbuild h
  have hpay : Storage.Payable s.round.current s :=
    h.invariant (I := fun s => Storage.Payable s.round.current s) (.genesis hbuild)
      fun s t hs _ => hs.next (t.does s)
  refine ⟨hexposed.every, ?_, ?_⟩
  · obtain ⟨stakes, haccounted, hselect⟩ :=
      GenesisConfig.build_ok (Accounted.call hR hE.toLawful) hbuild (.genesis world)
    have hstart : Accounted (Storage.ofStakes config stakes).toState :=
      haccounted.elsewhere (fun _ _ _ h => h) ⟨1, 0, E.defaultBlocksPerRound⟩
        E.minSelectedCandidates
    exact Storage.selectTopCandidates_selects hE.toLawful hstart hselect
  · intro n s' hnew hrun
    exact Storage.onInitialize_selects hE hexposed.accounted hpay hnew hrun

section Witness
open Staking.Sample

/-- Of three delegators of account 1, account 2 is to revoke and account 3 to decrease its top
delegation, and account 4 is to revoke its bottom delegation. -/
def pending : List (Turn (economy ⟨1, 10, 2, 2⟩)) :=
  [caller 1 (.joinCandidates 10 0), caller 2 (.delegate (1 : ℕ) 30 0 0),
    caller 3 (.delegate (1 : ℕ) 20 1 0), caller 4 (.delegate (1 : ℕ) 10 2 0),
    caller 2 (.scheduleRevokeDelegation (1 : ℕ)), caller 3 (.scheduleDelegatorBondLess (1 : ℕ) 4),
    caller 4 (.scheduleRevokeDelegation (1 : ℕ))]

theorem snapshots_add_up_pending :
    (∀ r c x, ((later 0 pending).atStake r).get c = some x → x.AddsUp) ∧
    ∀ s', (later 0 pending).onInitialize 10 = .ok s' → s'.Selected 2 := by
  have hrun : LawfulTurns (genesis 0) (trace Turn.next (genesis 0) pending) (later 0 pending) :=
    lawful_play (by simp [pending, caller])
  have hadds := snapshots_add_up (economy_proper (by decide)).placed (economy_depositing _)
    (build_eq 0) hrun
  refine ⟨hadds.1, ?_⟩
  intro s' hrun
  exact (hadds.2.2 10 s' (by decide +kernel) hrun).2.1

example : ((later 0 (pending ++ [.openBlock 10])).atStake 2).get (1 : ℕ) =
    some ⟨10, [⟨(2 : ℕ), 0⟩, ⟨(3 : ℕ), 16⟩], 26⟩ := by decide +kernel

/-- In `haunted`, the request of account 3 is taken off twice. -/
theorem snapshot_short : ¬ ∀ E : Economy, E.Depositing → 0 < E.minDelegation →
    1 ≤ E.maxTopDelegationsPerCandidate → 1 ≤ E.maxBottomDelegationsPerCandidate →
    1 ≤ E.maxDelegationsPerDelegator → 1 ≤ E.rewardPaymentDelay →
    ∀ (config : GenesisConfig E) (world : E.World) (s₀ s : Storage E)
      (tr : List (Storage E × Turn E)), config.build world = .ok s₀ → LawfulTurns s₀ tr s →
    ∀ r c x, (s.atStake r).get c = some x →
      x.total = x.bond + (x.delegations.map Bond.amount).sum := by
  intro h
  have hsnapshot : ((later 0 haunted).atStake 3).get (1 : ℕ) =
      some ⟨10, [⟨(3 : ℕ), 3⟩, ⟨(3 : ℕ), 0⟩], 9⟩ := by decide +kernel
  have htotal := h (economy ⟨0, 10, 2, 2⟩) (economy_depositing _) (by decide) (by decide)
    (by decide) (by decide) (by decide) _ _ _ (later 0 haunted) _ (build_eq 0)
    (lawful_play (by simp [haunted, caller])) 3 (1 : ℕ) _ hsnapshot
  revert htotal
  decide

end Witness
end Staking
end ZkNft
