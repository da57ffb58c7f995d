import ZkNft.CollatorSelection.Sessions
import ZkNft.Staking.Bank
import ZkNft.Staking.Selection

/-! Candidates of the collator selection pallet that become candidates of parachain staking. A call
is rolled back when it fails, also where the runtime itself makes it and goes on. -/

namespace ZkNft
namespace Staking
open StorageMap

section Join
variable {R : Runtime} {s : State R} {acc : R.Account} {bond candidateCount : ℕ}
  {origin : Origin R}

/-- A candidate with nothing delegated to it, its bond locked. -/
def State.joined (s : State R) (world : R.World) (acc : R.Account) (bond : ℕ)
    (candidatePool : List (Bond R.Account)) : State R :=
  { s with
    world := R.setLock world .collator acc bond
    candidateInfo := s.candidateInfo.insert acc (.new bond)
    topDelegations := s.topDelegations.insert acc .empty
    bottomDelegations := s.bottomDelegations.insert acc .empty
    candidatePool
    total := satAdd s.total bond }

theorem joinCandidates_rollback
    (h : (joinCandidates origin bond candidateCount s).1 ≠ .ok ⟨⟩) :
    (joinCandidates origin bond candidateCount s).2 = s := by
  apply Tx.transactional_rollback
  intro a
  exact h

/-- A call writes nothing, or the account joins after it has left the whitelist where it was on
it. -/
theorem joinCandidates_cases (origin : Origin R) (bond candidateCount : ℕ) (s : State R) :
    (joinCandidates origin bond candidateCount s).2 = s ∨
    ∃ acc candidatePool world,
      (world = s.world ∨ R.leaveIntent s.world acc = some world) ∧
      OrderedSet.insert s.candidatePool ⟨acc, bond⟩ = some candidatePool ∧
      (joinCandidates origin bond candidateCount s).2 = s.joined world acc bond candidatePool := by
  by_cases hok : (joinCandidates origin bond candidateCount s).1 = .ok ⟨⟩
  · right
    obtain ⟨acc, candidatePool, world, -, -, -, hworld, hpool, -, hs⟩ :=
      joinCandidates_ok (Tx.run_of_fst hok)
    exact ⟨acc, candidatePool, world, hworld, hpool, hs⟩
  · left
    exact joinCandidates_rollback hok

end Join

section Selection

/-- The runtime of `E` where the whitelist is kept by the collator selection pallet. -/
abbrev Economy.runtimeOver (E : Economy) (C : CollatorSelection.Runtime E.Account E.World) :
    Runtime :=
  { E.toRuntime with
    World := CollatorSelection.State C
    freeBalance := fun w => E.freeBalance w.world
    lock := fun w => E.lock w.world
    setLock := fun w id acc v => { w with world := E.setLock w.world id acc v }
    removeLock := fun w id acc => { w with world := E.removeLock w.world id acc }
    whitelist := CollatorSelection.State.candidateIds
    leaveIntent := fun w acc =>
      match CollatorSelection.leaveIntent (.signed acc) w with
      | (.ok _, w') => some w'
      | _ => none }

abbrev Economy.over (E : Economy) (C : CollatorSelection.Runtime E.Account E.World) : Economy :=
  { E with
    toRuntime := E.runtimeOver C
    totalIssuance := fun w => E.totalIssuance w.world
    depositIntoExisting := fun w acc v =>
      (E.depositIntoExisting w.world acc v).map fun x => (x.1, { w with world := x.2 })
    isMonetaryGovernance := E.isMonetaryGovernance }

variable {E : Economy} {C : CollatorSelection.Runtime E.Account E.World}

/-- Only a candidate of the collator selection pallet leaves it. Its deposit is paid back. -/
theorem leaveIntent_eq_some {w w' : CollatorSelection.State C} {acc : E.Account}
    (h : (E.runtimeOver C).leaveIntent w acc = some w') : ∃ c ∈ w.candidates, c.who = acc ∧
      w' = { w with
        world := C.unreserve w.world acc c.deposit
        candidates := w.candidates.eraseP fun c => c.who = acc } := by
  have hdoes := CollatorSelection.tryRemoveCandidate_does acc w
  have hrun : CollatorSelection.leaveIntent (.signed acc) w =
      CollatorSelection.tryRemoveCandidate acc w := rfl
  simp only [hrun] at h
  generalize CollatorSelection.tryRemoveCandidate acc w = r at hdoes h
  cases hdoes with
  | removed c hc hw => exact ⟨c, hc, hw, (Option.some.inj h).symm⟩
  | absent habs => cases h

end Selection

section Initialize

/-- The pallet with its storage version. -/
structure Pallet (E : Economy) extends Storage E where
  storageVersion : ℕ

inductive InitError where
  | palletAlreadyInitialized
  | notEnoughCollatorsForPalletInit
  | insufficientBalance
  deriving DecidableEq

variable {E : Economy} (C : CollatorSelection.Runtime E.Account E.World)

/-- The candidates join one after the other. An error of theirs is logged. -/
def onboardAll (whitelistBond : ℕ) :
    (candidateCount : ℕ) → List E.Account → Tx (State (E.runtimeOver C)) InitError PUnit
  | _, [] => pure ⟨⟩
  | candidateCount, candidate :: rest => do
    Tx.read fun s =>
      .ensure (C.reservedBalance s.world.world candidate ≥ whitelistBond) .insufficientBalance
    let joined ← Tx.logged (joinCandidates (.signed candidate) whitelistBond candidateCount)
    onboardAll whitelistBond
      (if joined then min (candidateCount + 1) (2 ^ 32 - 1) else candidateCount) rest

def initializePallet (startingBlock : ℕ) (candidates : List E.Account) (inflation : InflationInfo) :
    Tx (Pallet (E.over C)) InitError PUnit := do
  Tx.read fun p => .ensure (p.storageVersion = 0) .palletAlreadyInitialized
  Tx.read fun _ =>
    .ensure (candidates.length ≥ E.minSelectedCandidates) .notEnoughCollatorsForPalletInit
  Tx.modify fun p => { p with storageVersion := 1, inflationConfig := inflation }
  Tx.zoom (fun p => p.toState) (fun p stakes => { p with toState := stakes }) id
    (onboardAll C E.minWhitelistCandidateStk 0 candidates)
  Tx.modify fun p => { p with
    collatorCommission := E.defaultCollatorCommission
    parachainBondInfo := ⟨E.zeroAccount, E.defaultParachainBondReservePercent⟩
    totalSelected := E.minSelectedCandidates }
  let selected ← Tx.read fun p =>
    (p.selectTopCandidates 1).mapErr fun _ => .insufficientBalance
  Tx.modify fun p => { p with
    toStorage := { selected with
      round := ⟨1, startingBlock, E.defaultBlocksPerRound⟩
      staked := selected.staked.insert 1 selected.total } }

end Initialize

section Kept
variable {E : Economy} {C : CollatorSelection.Runtime E.Account E.World}
  {s s' : State (E.runtimeOver C)} {acc b : (E.runtimeOver C).Account} {bond candidateCount : ℕ}

/-- What onboarding relies on: locks and reserves do not touch each other, nor those of other
accounts. -/
structure Economy.Reserving (E : Economy) (C : CollatorSelection.Runtime E.Account E.World) :
    Prop where
  setLock_self : ∀ w id a n, 0 < n → E.lock (E.setLock w id a n) id a = some n
  setLock_other : ∀ w id a n id' a', id' ≠ id ∨ a' ≠ a →
    E.lock (E.setLock w id a n) id' a' = E.lock w id' a'
  setLock_reserved : ∀ w id a n b,
    C.reservedBalance (E.setLock w id a n) b = C.reservedBalance w b
  unreserve_lock : ∀ w a n id b, E.lock (C.unreserve w a n) id b = E.lock w id b
  unreserve_reserved : ∀ w a n b, b ≠ a →
    C.reservedBalance (C.unreserve w a n) b = C.reservedBalance w b

/-- The collator selection pallet still has what it had of an account. -/
structure Untouched (C : CollatorSelection.Runtime E.Account E.World)
    (w₀ w : CollatorSelection.State C) (acc : E.Account) : Prop where
  candidates : (w.candidates.filter fun c => c.who = acc) =
    w₀.candidates.filter fun c => c.who = acc
  reserved : C.reservedBalance w.world acc = C.reservedBalance w₀.world acc

namespace Untouched
variable {w₀ w w' : CollatorSelection.State C} {a : E.Account}

theorem refl (w : CollatorSelection.State C) (a : E.Account) : Untouched C w w a := ⟨rfl, rfl⟩

theorem trans (h : Untouched C w₀ w a) (h' : Untouched C w w' a) : Untouched C w₀ w' a :=
  ⟨h'.candidates.trans h.candidates, h'.reserved.trans h.reserved⟩

theorem mem_candidateIds (h : Untouched C w₀ w a) (ha : a ∈ w₀.candidateIds) :
    a ∈ w.candidateIds := by
  obtain ⟨c, hc, hw⟩ := List.mem_map.mp ha
  have hmem : c ∈ w.candidates.filter fun c => c.who = a := by
    rw [h.candidates]
    exact List.mem_filter.mpr ⟨hc, decide_eq_true hw⟩
  exact List.mem_map.mpr ⟨c, (List.mem_filter.mp hmem).1, hw⟩

end Untouched

/-- Parachain staking has the account as an active candidate, with the bond locked. -/
structure TakenOver (s : State (E.runtimeOver C)) (acc : (E.runtimeOver C).Account) (bond : ℕ) :
    Prop where
  candidate : s.isCandidate acc = true
  active : ⟨acc, bond⟩ ∈ s.candidatePool
  locked : bond ≤ (E.lock s.world.world .collator acc).getD 0

/-- An account that leaves does not change what the pallets have of another one. -/
theorem leaveIntent_other (hE : E.Reserving C) (hb : acc ≠ b) {w w' : CollatorSelection.State C}
    (h : w' = w ∨ (E.runtimeOver C).leaveIntent w b = some w') :
    Untouched C w w' acc ∧ E.lock w'.world .collator acc = E.lock w.world .collator acc := by
  rcases h with rfl | h
  · exact ⟨.refl _ _, rfl⟩
  · obtain ⟨c, hc, hw, rfl⟩ := leaveIntent_eq_some h
    refine ⟨⟨?_, hE.unreserve_reserved _ _ _ _ hb⟩, hE.unreserve_lock _ _ _ _ _⟩
    change ((w.candidates.eraseP _).filter _) = _
    generalize w.candidates = cs
    induction cs with
    | nil => rfl
    | cons c cs ih =>
      by_cases hcb : c.who = b
      · have hca : ¬ c.who = acc := fun h => hb (h.symm.trans hcb)
        rw [List.eraseP_cons_of_pos (by simpa using hcb),
          List.filter_cons_of_neg (by simpa using hca)]
      · rw [List.eraseP_cons_of_neg (by simpa using hcb), List.filter_cons, List.filter_cons, ih]

/-- One account that joins: the others stay where they are. -/
theorem joined_other (hE : E.Reserving C) (hb : acc ≠ b) {candidatePool : List (Bond E.Account)}
    {world : CollatorSelection.State C}
    (hworld : world = s.world ∨ (E.runtimeOver C).leaveIntent s.world b = some world)
    (hpool : OrderedSet.insert s.candidatePool ⟨b, bond⟩ = some candidatePool) :
    (TakenOver s acc bond → TakenOver (s.joined world b bond candidatePool) acc bond) ∧
      Untouched C s.world (s.joined world b bond candidatePool).world acc := by
  have ⟨hkept, hlock⟩ := leaveIntent_other hE hb hworld
  have hlock' : E.lock (s.joined world b bond candidatePool).world.world .collator acc =
      E.lock s.world.world .collator acc :=
    (hE.setLock_other _ _ _ _ _ _ (Or.inr hb)).trans hlock
  constructor
  · intro h
    refine ⟨?_, ?_, by rw [hlock']; exact h.locked⟩
    · exact (containsKey_insert _ _ _ _).mpr (Or.inr h.candidate)
    · exact (OrderedSet.insert_perm hpool).mem_iff.mpr (List.mem_cons_of_mem _ h.active)
  · exact ⟨hkept.candidates, (hE.setLock_reserved _ _ _ _ _).trans hkept.reserved⟩

theorem joined_self (hE : E.Reserving C) {candidatePool : List (Bond E.Account)}
    {world : CollatorSelection.State C}
    (hpool : OrderedSet.insert s.candidatePool ⟨acc, bond⟩ = some candidatePool) :
    TakenOver (s.joined world acc bond candidatePool) acc bond := by
  refine ⟨?_, ?_, ?_⟩
  · exact (containsKey_insert _ _ _ _).mpr (Or.inl rfl)
  · exact (OrderedSet.insert_perm hpool).mem_iff.mpr List.mem_cons_self
  · rcases Nat.eq_zero_or_pos bond with hzero | hpos
    · rw [hzero]
      exact Nat.zero_le _
    · have hlock : E.lock (s.joined world acc bond candidatePool).world.world .collator acc =
          some bond := hE.setLock_self _ _ _ _ hpos
      rw [hlock]
      exact Nat.le_refl _

/-- No account is lost: staking has it, or the collator selection pallet has it as in `w₀`. -/
def Kept (w₀ : CollatorSelection.State C) (bond : ℕ) (s : State (E.runtimeOver C)) : Prop :=
  ∀ acc, TakenOver s acc bond ∨ Untouched C w₀ s.world acc

/-- A call of `join_candidates` loses nobody, whether it succeeds or not. -/
theorem Kept.join {w₀ : CollatorSelection.State C} (hE : E.Reserving C) (h : Kept w₀ bond s)
    (origin : Origin (E.runtimeOver C)) (candidateCount : ℕ) :
    Kept w₀ bond (joinCandidates origin bond candidateCount s).2 := by
  rcases joinCandidates_cases origin bond candidateCount s with
    hs | ⟨b, candidatePool, world, hworld, hpool, hs⟩
  · rw [hs]
    exact h
  · rw [hs]
    intro acc
    by_cases hb : acc = b
    · rw [hb]
      exact Or.inl (joined_self hE hpool)
    · have ⟨htaken, hkept⟩ := joined_other hE hb hworld hpool
      rcases h acc with hacc | hacc
      · exact Or.inl (htaken hacc)
      · exact Or.inr (hacc.trans hkept)

theorem Kept.onboardAll {w₀ : CollatorSelection.State C} (hE : E.Reserving C)
    {candidates : List E.Account} (h : Kept w₀ bond s)
    (hrun : Staking.onboardAll C bond candidateCount candidates s = (.ok ⟨⟩, s')) :
    Kept w₀ bond s' := by
  induction candidates generalizing s candidateCount with
  | nil =>
    cases hrun
    exact h
  | cons candidate rest ih =>
    obtain ⟨_, _, hrun⟩ := Tx.read_bind_ok.mp hrun
    obtain ⟨joined, s₁, hjoin, hrun⟩ := Tx.bind_run_ok.mp hrun
    have hkept := h.join hE (.signed candidate) candidateCount
    rw [Tx.logged_run_ok hjoin] at hkept
    exact ih hkept hrun

/-- After a successful initialisation nobody is lost. -/
theorem initializePallet_kept (hE : E.Reserving C) {p p' : Pallet (E.over C)} {startingBlock : ℕ}
    {candidates : List E.Account} {inflation : InflationInfo}
    (h : initializePallet C startingBlock candidates inflation p = (.ok ⟨⟩, p')) :
    Kept p.world E.minWhitelistCandidateStk p'.toState := by
  obtain ⟨_, _, h⟩ := Tx.read_bind_ok.mp h
  obtain ⟨_, _, h⟩ := Tx.read_bind_ok.mp h
  have h := Tx.modify_bind_ok.mp h
  obtain ⟨_, p₁, hall, h⟩ := Tx.bind_run_ok.mp h
  obtain ⟨stakes, hstakes, rfl⟩ := Tx.zoom_run_ok.mp hall
  have h := Tx.modify_bind_ok.mp h
  obtain ⟨selected, hselect, h⟩ := Tx.read_bind_ok.mp h
  cases h
  have hstart : Kept p.world E.minWhitelistCandidateStk p.toState := by
    intro acc
    exact Or.inr (.refl _ _)
  have hkept := hstart.onboardAll hE hstakes
  obtain ⟨atStake, selectedCandidates, hs⟩ :=
    (Storage.selectTopCandidates_ok (Exec.mapErr_eq_ok.mp hselect)).same
  cases hs
  intro acc
  rcases hkept acc with htaken | huntouched
  · exact Or.inl ⟨htaken.candidate, htaken.active, htaken.locked⟩
  · exact Or.inr huntouched

/-- A call that fails leaves both pallets as they were, and after a successful initialisation every
candidate of the collator selection pallet is in one of the two pallets, with its bond locked or its
deposit still reserved. -/
theorem onboarding_safe (hE : E.Reserving C) :
    (∀ (s s' : State (E.runtimeOver C)) origin bond candidateCount e,
      joinCandidates origin bond candidateCount s = (.err e, s') → s' = s) ∧
    ∀ (p p' : Pallet (E.over C)) startingBlock candidates inflation,
      initializePallet C startingBlock candidates inflation p = (.ok ⟨⟩, p') →
      ∀ acc ∈ candidates, acc ∈ p.world.candidateIds →
        TakenOver p'.toState acc E.minWhitelistCandidateStk ∨
        acc ∈ p'.world.candidateIds ∧ Untouched C p.world p'.world acc := by
  constructor
  · intro s s' origin bond candidateCount e h
    have hsame : (joinCandidates origin bond candidateCount s).2 = s := by
      apply joinCandidates_rollback
      rw [h]
      intro heq
      cases heq
    rw [h] at hsame
    exact hsame
  · intro p p' startingBlock candidates inflation h acc _ hlisted
    rcases initializePallet_kept hE h acc with htaken | hkept
    · exact Or.inl htaken
    · exact Or.inr ⟨hkept.mem_candidateIds hlisted, hkept⟩

end Kept

namespace Sample

/-- Free and reserved balances, and locks. -/
structure Ledger where
  free : ℕ → ℕ
  reserved : ℕ → ℕ
  locks : World

def ledgerEconomy : Economy :=
  { economy ⟨5, 5, 4, 4⟩ with
    Account := ℕ
    World := Ledger
    freeBalance := Ledger.free
    lock := Ledger.locks
    setLock := fun w id a n => { w with locks := lockUp w.locks id a n }
    removeLock := fun w id a => { w with locks := setLock w.locks id a none }
    whitelist := fun _ => []
    leaveIntent := fun _ _ => none
    zeroAccount := (0 : ℕ)
    storageKey := fun a => a
    totalIssuance := fun _ => 10000
    depositIntoExisting := fun w a n =>
      some (n, { w with free := Function.update w.free a (w.free a + n) })
    isMonetaryGovernance := fun _ => false }

def selection : CollatorSelection.Runtime ℕ Ledger :=
  { CollatorSelection.Sample.bank with
    freeBalance := Ledger.free
    reservedBalance := Ledger.reserved
    reserve := fun w a n =>
      if n ≤ w.free a then
        some { w with
          free := Function.update w.free a (w.free a - n)
          reserved := Function.update w.reserved a (w.reserved a + n) }
      else none
    unreserve := fun w a n => { w with
      free := Function.update w.free a (w.free a + min n (w.reserved a))
      reserved := Function.update w.reserved a (w.reserved a - n) }
    transfer := fun _ _ _ _ => none
    isRegistered := fun _ _ => true
    validators := fun _ => [] }

theorem ledger_reserving : ledgerEconomy.Reserving selection where
  setLock_self w id a _ hn := lockUp_self w.locks id a hn
  setLock_other w _ _ n _ _ h := lockUp_other w.locks n h
  setLock_reserved _ _ _ _ _ := rfl
  unreserve_lock _ _ _ _ _ := rfl
  unreserve_reserved _ _ _ _ h := Function.update_of_ne h _ _

/-- Accounts 2 and 3 are candidates of the collator selection pallet, each with a deposit of 5 and
another reserve of 10. Account 2 has 2 left, and account 3 has 20. -/
def selected : CollatorSelection.State selection :=
  { invulnerables := []
    candidates := [⟨2, 5⟩, ⟨3, 5⟩]
    blocksPerCollatorThisSession := .empty
    evictionBaseline := .fromParts _ 80
    evictionTolerance := .fromParts _ 10
    desiredCandidates := 3
    candidacyBond := 5
    world :=
      { free := fun a => if a = 2 then 2 else 20
        reserved := fun _ => 15
        locks := fun _ _ => none } }

def inflation : InflationInfo :=
  let range : Range Perbill := ⟨.fromParts _ 0, .fromParts _ 0, .fromParts _ 0⟩
  ⟨⟨0, 0, 0⟩, range, range⟩

def uninitialized : Pallet (ledgerEconomy.over selection) :=
  { toStorage := .ofStakes ⟨[], [], inflation⟩ (State.genesis selected)
    storageVersion := 0 }

/-- Account 3 joins. Account 2 has too little for the bond, even with its deposit paid back. -/
def onboarded : Exec InitError PUnit × Pallet (ledgerEconomy.over selection) :=
  initializePallet (E := ledgerEconomy) selection 1 [(2 : ℕ), (3 : ℕ)] inflation uninitialized

end Sample

open Staking.Sample in
theorem onboarding_safe_sample :
    TakenOver (E := ledgerEconomy) (C := selection) onboarded.2.toState (3 : ℕ) 10 ∧
    (2 : ℕ) ∈ onboarded.2.world.candidateIds ∧
    Untouched (E := ledgerEconomy) selection uninitialized.world onboarded.2.world (2 : ℕ) := by
  have hrun : onboarded = (.ok ⟨⟩, onboarded.2) := rfl
  have hend := (onboarding_safe ledger_reserving).2 uninitialized onboarded.2 1 [(2 : ℕ), (3 : ℕ)]
    inflation hrun
  have hlisted : ∀ a ∈ [(2 : ℕ), (3 : ℕ)], a ∈ uninitialized.world.candidateIds := by
    intro a ha
    exact ha
  have hleft : (3 : ℕ) ∉ onboarded.2.world.candidateIds := by
    change 3 ∉ [2]
    decide
  have hout : (⟨(2 : ℕ), 10⟩ : Bond ℕ) ∉ onboarded.2.candidatePool := by
    change (⟨2, 10⟩ : Bond ℕ) ∉ [(⟨3, 10⟩ : Bond ℕ)]
    decide
  constructor
  · have hmem : (3 : ℕ) ∈ [2, 3] := by decide
    exact (hend (3 : ℕ) hmem (hlisted 3 hmem)).resolve_right fun h => hleft h.1
  · have hmem : (2 : ℕ) ∈ [2, 3] := by decide
    exact (hend (2 : ℕ) hmem (hlisted 2 hmem)).resolve_left fun h => hout h.active

end Staking
end ZkNft
