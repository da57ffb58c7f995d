import ZkNft.Staking.Bank
import ZkNft.Staking.Rounds
import ZkNft.Staking.Selection

/-! No block and no call panics. -/

namespace ZkNft
namespace Staking
open StorageMap

variable {E : Economy}

/-- A new length is written with the rates for it, or nothing is. -/
theorem setBlocksPerRound_cases (origin : Origin E.toRuntime) (new : ℕ) (s : Storage E) :
    (dispatchCall origin (.setBlocksPerRound new) s).2 = s ∨
    ∃ u stakes inflationConfig, setBlocksPerRound origin new s.toState = (.ok u, stakes) ∧
      s.inflationConfig.resetRound E new = .ok inflationConfig ∧
      (dispatchCall origin (.setBlocksPerRound new) s).2 =
        { s with toState := stakes, inflationConfig } := by
  by_cases hok : ∃ u, (dispatchCall origin (.setBlocksPerRound new) s).1 = .ok u
  · obtain ⟨u, hok⟩ := hok
    obtain ⟨v, s₁, hstakes, hrest⟩ :=
      Tx.bind_run_ok.mp (Tx.transactional_run_ok.mp (Tx.run_of_fst hok))
    obtain ⟨stakes, hrun, rfl⟩ := Tx.zoom_run_ok.mp hstakes
    obtain ⟨config, hreset, hwrite⟩ := Tx.read_bind_ok.mp hrest
    exact .inr ⟨v, stakes, config, hrun, hreset, Tx.modify_ok.mp hwrite⟩
  · exact .inl (Tx.transactional_rollback fun a ha => hok ⟨a, ha⟩)

/-- What a call does to the whole storage, if it does not stop on the way. -/
theorem dispatchCall_snd (origin : Origin E.toRuntime) (call : Call E.toRuntime) (s : Storage E) :
    (dispatchCall origin call s).2 = s ∨ ∃ inflationConfig, (dispatchCall origin call s).2 =
      { s with toState := (call.dispatch origin s.toState).2, inflationConfig } := by
  cases call with
  | setBlocksPerRound new =>
    rcases setBlocksPerRound_cases origin new s with h | ⟨u, stakes, config, hrun, -, h⟩
    · exact .inl h
    · have hstakes : ((Call.setBlocksPerRound new).dispatch origin s.toState).2 = stakes :=
        congrArg Prod.snd hrun
      rw [hstakes]
      exact .inr ⟨config, h⟩
  | _ => exact .inr ⟨s.inflationConfig, rfl⟩

section Inflation
variable {t : Trap}

/-- The rates of a round could not be computed. -/
def InflationTrap (t : Trap) : Prop :=
  t = .divideByZero ∨
    t = .expect "Cannot overflow since rounds_per_year is u32 so worst case 0; QED"

theorem annualToRound_trap {exponent : I64F64} {annual : Perbill}
    (h : annualToRound E exponent annual = .trap t) : InflationTrap t := by
  rcases Exec.bind_eq_trap.mp h with h | ⟨x, -, h⟩
  · exact .inl (Exec.divide_eq_trap.mp h).2
  rcases Exec.bind_eq_trap.mp h with h | ⟨y, -, h⟩
  · exact .inr (Exec.expect_eq_trap.mp h).2
  · cases h

theorem perbillAnnualToPerbillRound_trap {annual : Range Perbill} {periods : ℕ}
    (h : perbillAnnualToPerbillRound E annual periods = .trap t) : InflationTrap t := by
  rcases Exec.bind_eq_trap.mp h with h | ⟨exponent, -, h⟩
  · exact .inl (Exec.divide_eq_trap.mp h).2
  rcases Exec.bind_eq_trap.mp h with h | ⟨min, -, h⟩
  · exact annualToRound_trap h
  rcases Exec.bind_eq_trap.mp h with h | ⟨ideal, -, h⟩
  · exact annualToRound_trap h
  rcases Exec.bind_eq_trap.mp h with h | ⟨max, -, h⟩
  · exact annualToRound_trap h
  · cases h

theorem resetRound_trap {config : InflationInfo} {newLength : ℕ}
    (h : config.resetRound E newLength = .trap t) : InflationTrap t := by
  rcases Exec.bind_eq_trap.mp h with h | ⟨periods, -, h⟩
  · exact .inl (Exec.div_eq_trap.mp h).2
  rcases Exec.bind_eq_trap.mp h with h | ⟨round, -, h⟩
  · exact perbillAnnualToPerbillRound_trap h
  · cases h

/-- Both ways to compute the rates of a round are one. -/
theorem setRoundFromAnnual_eq (s : Storage E) (config : InflationInfo) (new : Range Perbill) :
    { config with annual := new }.setRoundFromAnnual s new =
      { config with annual := new }.resetRound E s.round.length := rfl

/-- A call whose stakes are settled stops at most over the rates of a round. -/
theorem dispatchCall_trap {s : Storage E} {origin : Origin E.toRuntime} {call : Call E.toRuntime}
    (h : (call.dispatch origin s.toState).1.Returns)
    (ht : (dispatchCall origin call s).1 = .trap t) : InflationTrap t := by
  cases call with
  | setBlocksPerRound n =>
    rcases Tx.bind_run_trap.mp (Tx.transactional_run_trap.mp ht) with ht | ⟨_, s₁, -, ht⟩
    · exact absurd (Exec.mapErr_eq_trap.mp ht) (h t)
    rcases Tx.bind_run_trap.mp ht with ht | ⟨config, s₂, -, ht⟩
    · exact resetRound_trap ht
    · cases ht
  | _ => exact absurd (Exec.mapErr_eq_trap.mp ht) (h t)

end Inflation

section Measures

theorem ensureMonetaryGovernance_returns (origin : Origin E.toRuntime) :
    (ensureMonetaryGovernance origin).Returns := by
  unfold ensureMonetaryGovernance
  split_ifs
  · exact Exec.ok_returns _
  · exact Exec.err_returns _

theorem ensureWith_total (p : Storage E → Bool) (e : Error) : (ensureWith p e).Total :=
  .read fun _ => Exec.ensure_returns _ _

section Writes
variable {check : Storage E → Exec DispatchError PUnit} {p : Storage E → Bool} {e : Error}
  {f : Storage E → Storage E}

/-- One value is written after two checks. -/
theorem checkedWrite_total (h : ∀ s, (check s).Returns) :
    (do Tx.read check; ensureWith p e; Tx.modify f : Hook E PUnit).Total :=
  .bind (.read h) fun _ => .bind (ensureWith_total p e) fun _ => .modify f

theorem checkedWrite_keeps {τ : Type} {g : Storage E → τ} (h : ∀ s, g (f s) = g s) :
    (do Tx.read check; ensureWith p e; Tx.modify f : Hook E PUnit).Keeps g :=
  .bind (.read _) fun _ => .bind (.read _) fun _ => .modify h

end Writes

theorem measure_traps (origin : Origin E.toRuntime) (m : Measure E) :
    (m.dispatch origin).TrapsOnly InflationTrap := by
  have hgov : (Tx.read fun _ => ensureMonetaryGovernance origin : Hook E PUnit).Total :=
    .read fun _ => ensureMonetaryGovernance_returns origin
  cases m with
  | setCollatorCommission new =>
    exact .of_total (checkedWrite_total fun _ => origin.ensureRoot_returns)
  | setStakingExpectations expectations =>
    apply Tx.TrapsOnly.of_total
    apply Tx.Total.bind hgov
    intro _
    apply Tx.Total.bind (ensureWith_total _ _)
    exact fun _ => .bind (ensureWith_total _ _) fun _ => .modify _
  | setInflation schedule =>
    refine Tx.TrapsOnly.bind (.of_total hgov) fun _ => ?_
    refine Tx.TrapsOnly.bind (.of_total (ensureWith_total _ _)) fun _ => ?_
    refine Tx.TrapsOnly.bind (.of_total (ensureWith_total _ _)) fun _ => ?_
    refine Tx.TrapsOnly.bind (.read fun s t h => ?_) fun _ => .of_total (.modify _)
    rw [setRoundFromAnnual_eq] at h
    exact resetRound_trap h
  | setParachainBondAccount new =>
    exact .of_total (checkedWrite_total fun _ => ensureMonetaryGovernance_returns origin)
  | setParachainBondReservePercent new =>
    exact .of_total (checkedWrite_total fun _ => ensureMonetaryGovernance_returns origin)

/-- What the measures do not touch. -/
def OffTerms {τ : Type} (f : Storage E → τ) : Prop :=
  ∀ s inflationConfig parachainBondInfo collatorCommission,
    f { s with inflationConfig, parachainBondInfo, collatorCommission } = f s

theorem measure_keeps {τ : Type} {f : Storage E → τ} (hf : OffTerms f) (origin : Origin E.toRuntime)
    (m : Measure E) : (m.dispatch origin).Keeps f := by
  cases m with
  | setCollatorCommission new =>
    exact checkedWrite_keeps fun s => hf s s.inflationConfig s.parachainBondInfo _
  | setStakingExpectations expectations =>
    apply Tx.Keeps.bind (.read _)
    intro _
    apply Tx.Keeps.bind (.read _)
    intro _
    apply Tx.Keeps.bind (.read _)
    exact fun _ => .modify fun s => hf s _ s.parachainBondInfo s.collatorCommission
  | setInflation schedule =>
    apply Tx.Keeps.bind (.read _)
    intro _
    apply Tx.Keeps.bind (.read _)
    intro _
    apply Tx.Keeps.bind (.read _)
    intro _
    apply Tx.Keeps.bind (.read _)
    exact fun _ => .modify fun s => hf s _ s.parachainBondInfo s.collatorCommission
  | setParachainBondAccount new =>
    exact checkedWrite_keeps fun s => hf s s.inflationConfig _ s.collatorCommission
  | setParachainBondReservePercent new =>
    exact checkedWrite_keeps fun s => hf s s.inflationConfig _ s.collatorCommission

/-- A measure changes nothing but the terms of the payouts. -/
theorem measure_snd (origin : Origin E.toRuntime) (m : Measure E) (s : Storage E) :
    ∃ inflationConfig parachainBondInfo collatorCommission, (m.dispatch origin s).2 =
      { s with inflationConfig, parachainBondInfo, collatorCommission } := by
  let restored : Storage E → Storage E := fun s' => { s' with
    inflationConfig := s.inflationConfig
    parachainBondInfo := s.parachainBondInfo
    collatorCommission := s.collatorCommission }
  have hkeeps : restored (m.dispatch origin s).2 = s :=
    measure_keeps (f := restored) (fun _ _ _ _ => rfl) origin m s
  generalize (m.dispatch origin s).2 = s' at hkeeps ⊢
  have hsame : s' = { restored s' with
      inflationConfig := s'.inflationConfig
      parachainBondInfo := s'.parachainBondInfo
      collatorCommission := s'.collatorCommission } := rfl
  rw [hkeeps] at hsame
  exact ⟨_, _, _, hsame⟩

end Measures

/-- What a turn does. -/
inductive Turn.Does (s : Storage E) : Turn E → Storage E → Prop where
  | opens {n : ℕ} {s' : Storage E} (hrun : s.onInitialize n = .ok s') :
    Does s (.openBlock n) s'
  | halts {n : ℕ} (hrun : ∀ s', s.onInitialize n ≠ .ok s') : Does s (.openBlock n) s
  | calls (origin : Origin E.toRuntime) (call : Call E.toRuntime)
    (inflationConfig : InflationInfo) :
    Does s (.call origin call)
      { s with toState := (call.dispatch origin s.toState).2, inflationConfig }
  | panics (origin : Origin E.toRuntime) (call : Call E.toRuntime) : Does s (.call origin call) s
  | measures (origin : Origin E.toRuntime) (m : Measure E) (inflationConfig : InflationInfo)
    (parachainBondInfo : ParachainBondConfig E.Account) (collatorCommission : Perbill) :
    Does s (.measure origin m)
      { s with inflationConfig, parachainBondInfo, collatorCommission }
  | moves (world : E.World) : Does s (.other world) { s with world }
  | closes (author : E.Account) : Does s (.closeBlock author) (s.awardPointsToBlockAuthor author)

theorem Turn.does (s : Storage E) (t : Turn E) : t.Does s (t.next s) := by
  cases t with
  | openBlock n =>
    unfold Turn.next
    dsimp only
    cases hrun : s.onInitialize n with
    | ok s' => exact .opens hrun
    | err e => exact .halts fun s' h => by cases hrun.symm.trans h
    | trap e => exact .halts fun s' h => by cases hrun.symm.trans h
  | call origin call =>
    show Does s _ (dispatchCall origin call s).2
    rcases dispatchCall_snd origin call s with h | ⟨config, h⟩
    · rw [h]
      exact .panics origin call
    · rw [h]
      exact .calls origin call config
  | measure origin m =>
    obtain ⟨config, info, commission, h⟩ := measure_snd origin m s
    show Does s _ (m.dispatch origin s).2
    rw [h]
    exact .measures origin m config info commission
  | other world => exact .moves world
  | closeBlock author => exact .closes author

section Genesis
variable {I : State E.toRuntime → Prop}
  (hcall : ∀ origin (call : Call E.toRuntime), (call.dispatch origin).Preserves I)

theorem succeeds_preserves {x : Update E.toRuntime PUnit} (hx : x.Preserves I) :
    (succeeds x).Preserves I := by
  intro s hs
  have hs' := hx s hs
  unfold succeeds
  rcases h : x s with ⟨_ | _ | _, s₁⟩
  all_goals
    rw [h] at hs'
    exact hs'

include hcall

theorem joinAll_preserves (n : ℕ) (candidates : List (E.Account × ℕ)) :
    (joinAll n candidates).Preserves I := by
  induction candidates generalizing n with
  | nil => exact .pure _
  | cons x candidates ih =>
    have hjoin := hcall (.signed x.1) (.joinCandidates x.2 (n + 1))
    exact .bind (.read _) fun _ => .bind (succeeds_preserves hjoin) fun _ => ih _

theorem delegateAll_preserves (colDelegatorCount delDelegationCount : StorageMap E.Account ℕ)
    (delegations : List (E.Account × E.Account × ℕ)) :
    (delegateAll colDelegatorCount delDelegationCount delegations).Preserves I := by
  induction delegations generalizing colDelegatorCount delDelegationCount with
  | nil => exact .pure _
  | cons x delegations ih =>
    have hdelegate := hcall (.signed x.1) (.delegate x.2.1 x.2.2
      ((colDelegatorCount.get x.2.1).getD 0) ((delDelegationCount.get x.1).getD 0))
    have hrest : ∀ delegated : Bool, (if delegated then
          delegateAll (colDelegatorCount.insert x.2.1 ((colDelegatorCount.get x.2.1).getD 0 + 1))
            (delDelegationCount.insert x.1 ((delDelegationCount.get x.1).getD 0 + 1)) delegations
        else delegateAll colDelegatorCount delDelegationCount delegations).Preserves I := by
      intro delegated
      cases delegated with
      | true => exact ih _ _
      | false => exact ih _ _
    exact .bind (.read _) fun _ => .bind (succeeds_preserves hdelegate) hrest

/-- The genesis block makes calls, starts the first round and selects the first collators. -/
theorem GenesisConfig.build_ok {config : GenesisConfig E} {world : E.World} {s : Storage E}
    (h : config.build world = .ok s) (h₀ : I (State.genesis world)) : ∃ stakes, I stakes ∧
      (Storage.ofStakes config stakes).selectTopCandidates 1 = .ok s := by
  obtain ⟨_, -, hselect⟩ := Exec.bind_eq_ok.mp h
  refine ⟨_, ?_, hselect⟩
  exact Tx.Preserves.bind (joinAll_preserves hcall _ _)
    (fun _ => delegateAll_preserves hcall _ _ _) _ h₀

end Genesis

/-- The books and the pool are in order. -/
structure Orderly {R : Runtime} (s : State R) : Prop where
  books : Books s
  pool : PoolExact s.candidatePool s.candidateInfo

namespace Orderly
variable {R : Runtime} {s : State R}

theorem genesis (world : R.World) : Orderly (State.genesis world) :=
  ⟨.genesis world, .genesis world⟩

theorem call (hR : R.Placed) (hfree : ∀ w a, R.freeBalance w a ≤ maxBalance) (origin : Origin R)
    (call : Call R) : (call.dispatch origin).Preserves Orderly := by
  intro s hs
  exact ⟨hs.books.step hR hfree (.call origin call),
    (Move.next_restakes s (.call origin call)).pool hs.pool⟩

/-- The balances and the round do not matter. -/
theorem elsewhere (hs : Orderly s) (world : R.World) (round : RoundInfo) (totalSelected : ℕ) :
    Orderly { s with world, round, totalSelected } :=
  ⟨⟨hs.books.candidates, hs.books.delegators, hs.books.agree, hs.books.requests⟩, hs.pool⟩

end Orderly

/-- Between blocks, the stakes are in order, and the selected candidates have snapshots of the
current round. -/
structure Steady (s : Storage E) : Prop where
  orderly : Orderly s.toState
  covers : s.Covers s.round.current

namespace Steady
variable {s s' : Storage E} {r n : ℕ}

/-- A step of the payout of another round. -/
theorem payout (hs : Steady s) (h : Storage.PayoutStep r s s') (hr : r ≠ s.round.current) :
    Steady s' := by
  obtain ⟨w, -, hstakes⟩ := h.stakes
  have hround : s'.round = s.round := by rw [hstakes]
  constructor
  · rw [hstakes]
    exact hs.orderly.elsewhere w s.round s.totalSelected
  · unfold Storage.Covers
    rw [hround, h.selected, h.atStake _ (Ne.symm hr)]
    exact hs.covers

/-- A payout is of an earlier round. -/
theorem handled (hs : Steady s) (hdelay : 1 ≤ E.rewardPaymentDelay) :
    Steady (s.handleDelayedPayouts s.round.current) := by
  rcases s.handleDelayedPayouts_cases s.round.current with ⟨-, h⟩ | ⟨r, hr, h⟩
  · rw [h]
    exact hs
  · exact hs.payout h.step (by omega)

theorem prepared (s : Storage E) (now : ℕ) : ∃ w, E.Deposits s.world w ∧
    (s.prepareStakingPayouts now).toState = { s.toState with world := w } ∧
    (s.prepareStakingPayouts now).selectedCandidates = s.selectedCandidates ∧
    (s.prepareStakingPayouts now).atStake = s.atStake := by
  rcases s.prepareStakingPayouts_cases now with ⟨-, h⟩ | ⟨r, -, -, h⟩
  · rw [h]
    exact ⟨s.world, .refl, rfl, rfl, rfl⟩
  · obtain ⟨w, hw, hstakes⟩ := h.step.stakes
    exact ⟨w, hw, hstakes, h.step.selected, h.atStake⟩

/-- The selected candidates of the round before, or new ones, are the collators of a round. -/
theorem selected (hs : Steady s) : ∃ s',
    (s.prepareStakingPayouts (s.round.current + 1)).selectTopCandidates (s.round.current + 1) =
      .ok s' ∧ Orderly s'.toState ∧ s'.Covers (s.round.current + 1) := by
  obtain ⟨w, -, hstakes, hselected, hatStake⟩ := prepared s (s.round.current + 1)
  have horderly := hs.orderly.elsewhere w s.round s.totalSelected
  rw [← hstakes] at horderly
  have hcovers : (s.prepareStakingPayouts (s.round.current + 1)).Covers s.round.current := by
    unfold Storage.Covers
    rw [hselected, hatStake]
    exact hs.covers
  obtain ⟨s', hrun, hcovers'⟩ := Storage.selectTopCandidates_total (s.round.current + 1)
    horderly.books.candidates horderly.pool hcovers
  obtain ⟨atStake, selected, rfl⟩ := (Storage.selectTopCandidates_ok hrun).same
  exact ⟨_, hrun, horderly, hcovers'⟩

/-- A block begins, and the storage stays in order. -/
theorem onInitialize_total (hs : Steady s) (hdelay : 1 ≤ E.rewardPaymentDelay) (n : ℕ) :
    ∃ s', s.onInitialize n = .ok s' ∧ Steady s' := by
  unfold Storage.onInitialize
  by_cases hnew : s.round.shouldUpdate n = true
  · rw [if_pos hnew]
    obtain ⟨s₁, hrun, horderly, hcovers⟩ := hs.selected
    have hbegun : Steady { s₁ with
        round := s.round.update n
        staked := s₁.staked.insert (s.round.current + 1) s₁.total } :=
      ⟨horderly.elsewhere s₁.world (s.round.update n) s₁.totalSelected, hcovers⟩
    refine ⟨_, ?_, hbegun.handled hdelay⟩
    exact Exec.bind_eq_ok.mpr ⟨s₁, hrun, rfl⟩
  · rw [if_neg hnew]
    exact ⟨_, rfl, hs.handled hdelay⟩

theorem genesis (hR : E.toRuntime.Placed) (hfree : ∀ w a, E.freeBalance w a ≤ maxBalance)
    {config : GenesisConfig E} {world : E.World} (h : config.build world = .ok s) : Steady s := by
  obtain ⟨stakes, horderly, hselect⟩ :=
    GenesisConfig.build_ok (Orderly.call hR hfree) h (.genesis world)
  have horderly' := horderly.elsewhere stakes.world ⟨1, 0, E.defaultBlocksPerRound⟩
    E.minSelectedCandidates
  have hcovers : (Storage.ofStakes config stakes).Covers 0 := by
    intro c hc
    cases hc
  obtain ⟨s', hrun, hcovers'⟩ := Storage.selectTopCandidates_total
    (s := Storage.ofStakes config stakes) 1 horderly'.books.candidates horderly'.pool hcovers
  obtain rfl := Exec.ok.inj (hselect.symm.trans hrun)
  obtain ⟨atStake, selected, hs'⟩ := (Storage.selectTopCandidates_ok hrun).same
  have hstakes : s.toState = (Storage.ofStakes config stakes).toState := by rw [hs']
  have hround : s.round = ⟨1, 0, E.defaultBlocksPerRound⟩ := congrArg State.round hstakes
  constructor
  · rw [hstakes]
    exact horderly'
  · rw [hround]
    exact hcovers'

theorem next (hR : E.toRuntime.Placed) (hfree : ∀ w a, E.freeBalance w a ≤ maxBalance)
    (hdelay : 1 ≤ E.rewardPaymentDelay) (hs : Steady s) {t : Turn E} (h : t.Does s s') :
    Steady s' := by
  cases h with
  | @opens n s₁ hrun =>
    obtain ⟨s₂, hrun', hs'⟩ := hs.onInitialize_total hdelay n
    obtain rfl := Exec.ok.inj (hrun.symm.trans hrun')
    exact hs'
  | halts => exact hs
  | calls origin call config =>
    have hround : ((call.dispatch origin s.toState).2).round.current = s.round.current :=
      call.dispatch_current s.toState
    refine ⟨Orderly.call hR hfree origin call _ hs.orderly, ?_⟩
    show s.Covers _
    rw [hround]
    exact hs.covers
  | panics => exact hs
  | measures => exact ⟨hs.orderly, hs.covers⟩
  | moves world => exact ⟨hs.orderly.elsewhere world s.round s.totalSelected, hs.covers⟩
  | closes author => exact ⟨hs.orderly, hs.covers⟩

end Steady

/-- The runs of a chain. -/
abbrev Turns (s₀ : Storage E) (tr : List (Storage E × Turn E)) (s : Storage E) : Prop :=
  Run Turn.next (fun _ _ => True) s₀ tr s

/-- In every state reached, the next call and the next block go through without a panic, save one
over the rates of a round, and a delegation is found where its delegator has it. -/
theorem never_panics (hR : E.toRuntime.Placed) (hfree : ∀ w a, E.freeBalance w a ≤ maxBalance)
    (hdelay : 1 ≤ E.rewardPaymentDelay) {config : GenesisConfig E} {world : E.World}
    {s₀ s : Storage E} (hbuild : config.build world = .ok s₀) {tr : List (Storage E × Turn E)}
    (h : Turns s₀ tr s) :
    (∀ origin (call : Call E.toRuntime), (call.dispatch origin s.toState).1.Returns) ∧
    (∀ origin call t, (dispatchCall origin call s).1 = .trap t → InflationTrap t) ∧
    (∀ origin (m : Measure E) t, (m.dispatch origin s).1 = .trap t → InflationTrap t) ∧
    (∀ n, ∃ s', s.onInitialize n = .ok s') ∧
    ∀ c d a, ⟨c, a⟩ ∈ s.delegationsOf d → ∃ m, Found s.toState c d a m := by
  have hs : Steady s := h.invariant (.genesis hR hfree hbuild) fun s t hs _ =>
    hs.next hR hfree hdelay (t.does s)
  have hreturns : ∀ origin (call : Call E.toRuntime),
      (call.dispatch origin s.toState).1.Returns :=
    fun origin call => call.dispatch_returns hR hs.orderly.books hfree
  refine ⟨hreturns, fun origin call t => dispatchCall_trap (hreturns origin call),
    fun origin m => measure_traps origin m s, ?_, ?_⟩
  · intro n
    obtain ⟨s', hrun, -⟩ := hs.onInitialize_total hdelay n
    exact ⟨s', hrun⟩
  · intro c d a hx
    exact hs.orderly.books.found hR hx

section Witness
open Staking.Sample

/-- Accounts 2 and 3 stake on account 1, and a round begins. -/
def begun : List (Turn (economy ⟨1, 10, 1, 2⟩)) :=
  [caller 1 (.joinCandidates 10 0), caller 2 (.delegate (1 : ℕ) 20 0 0),
    caller 3 (.delegate (1 : ℕ) 10 1 0), .openBlock 10]

theorem never_panics_begun :
    (∀ origin (call : Call _), (call.dispatch origin (later 0 begun).toState).1.Returns) ∧
    (∀ origin call t, (dispatchCall origin call (later 0 begun)).1 = .trap t → InflationTrap t) ∧
    (∀ origin (m : Measure _) t, (m.dispatch origin (later 0 begun)).1 = .trap t →
      InflationTrap t) ∧
    (∀ n, ∃ s', (later 0 begun).onInitialize n = .ok s') ∧
    ∀ c d a, ⟨c, a⟩ ∈ (later 0 begun).delegationsOf d →
      ∃ m, Found (later 0 begun).toState c d a m :=
  never_panics (economy_proper (by decide)).placed (economy_lawful _).free_le (by decide)
    (build_eq 0) (Run.play fun _ _ => trivial)

/-- Account 3 delegates nothing to account 1, and its state goes with account 2, which leaves. -/
def ghost : List (Turn (economy ⟨0, 10, 1, 2⟩)) :=
  [caller 1 (.joinCandidates 10 0), caller 3 (.delegate (1 : ℕ) 0 0 0),
    caller 2 (.joinCandidates 10 1), caller 3 (.delegate (2 : ℕ) 5 0 1),
    caller 2 (.scheduleLeaveCandidates 2), .openBlock 10,
    caller 4 (.executeLeaveCandidates (2 : ℕ) 1), caller 4 (.delegate (1 : ℕ) 10 1 0)]

/-- A greater delegation kicks the one of account 3, which has no state. -/
theorem delegate_panics : ¬ ∀ E : Economy, E.toRuntime.Lawful → 0 < E.minDelegation →
    1 ≤ E.maxTopDelegationsPerCandidate → 1 ≤ E.maxBottomDelegationsPerCandidate →
    1 ≤ E.maxDelegationsPerDelegator → 1 ≤ E.rewardPaymentDelay →
    ∀ (config : GenesisConfig E) (world : E.World) (s₀ s : Storage E)
      (tr : List (Storage E × Turn E)), config.build world = .ok s₀ → Turns s₀ tr s →
    ∀ origin (call : Call E.toRuntime), (call.dispatch origin s.toState).1.Returns := by
  intro h
  have hreturns := h (economy ⟨0, 10, 1, 2⟩) (economy_lawful _) (by decide) (by decide) (by decide)
    (by decide) (by decide) _ _ _ (later 0 ghost) _ (build_eq 0) (Run.play fun _ _ => trivial)
    (.signed (5 : ℕ)) (.delegate (1 : ℕ) 20 2 0)
  have htrap : ((Call.delegate (1 : ℕ) 20 2 0).dispatch (.signed (5 : ℕ))
      (later 0 ghost).toState).1 =
      .trap (.expect "Delegation existence => DelegatorState existence") := by decide +kernel
  exact hreturns _ htrap

end Witness
end Staking
end ZkNft
