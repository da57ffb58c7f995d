import ZkNft.Staking.Mirror
import ZkNft.Staking.Pending
import ZkNft.Staking.Panics

/-! The shares of a collator and its delegators, which make up a whole in every snapshot. -/

namespace ZkNft
namespace Staking
open Keyed StorageMap

variable {E : Economy}

/-- What the payouts rely on in the currency. -/
structure Economy.Depositing (E : Economy) : Prop extends E.toRuntime.Lawful where
  deposit_amount : ∀ w a n k w', E.depositIntoExisting w a n = some (k, w') → k = n
  deposit_free : ∀ w a n k w', E.depositIntoExisting w a n = some (k, w') →
    ∀ b, E.freeBalance w b ≤ E.freeBalance w' b
  deposit_lock : ∀ w a n k w', E.depositIntoExisting w a n = some (k, w') →
    ∀ id b, E.lock w' id b = E.lock w id b

/-- The rest of the runtime keeps to the locks. -/
def Turn.Permitted (s : Storage E) : Turn E → Prop
  | .other world => E.toRuntime.Permits s.world world
  | _ => True

/-- The runs of a chain in which the rest of the runtime keeps to the locks. -/
abbrev LawfulTurns (s₀ : Storage E) (tr : List (Storage E × Turn E)) (s : Storage E) : Prop :=
  Run Turn.next Turn.Permitted s₀ tr s

theorem Economy.Depositing.covered (hE : E.Depositing) {w w' : E.World} (h : E.Deposits w w')
    {id : LockId} {a : E.Account} {n : ℕ} (hcovered : Covered w id a n) : Covered w' id a n := by
  induction h with
  | refl => exact hcovered
  | tail _ hstep ih =>
    obtain ⟨b, m, k, hdeposit⟩ := hstep
    exact ih.keep (hE.deposit_free _ _ _ _ _ hdeposit a) (hE.deposit_lock _ _ _ _ _ hdeposit id a)

/-- The stakes are in order, and so is what is kept of them. -/
structure Accounted {R : Runtime} (s : State R) : Prop where
  cached : Cached s
  reckoned : Reckoned s

namespace Accounted
variable {R : Runtime} {s : State R}

theorem genesis (world : R.World) : Accounted (State.genesis world) :=
  ⟨.genesis world, .genesis world⟩

theorem call (hR : R.Placed) (hL : R.Lawful) (origin : Origin R) (call : Call R) :
    (call.dispatch origin).Preserves Accounted := by
  intro s hs
  exact ⟨hs.cached.next hR hL (m := .call origin call) trivial,
    hs.reckoned.next hR hL.free_le hs.cached.sound.books (.call origin call)⟩

/-- The round does not matter, and of the balances only what is staked. -/
theorem elsewhere (hs : Accounted s) {world : R.World}
    (h : ∀ id a n, Covered s.world id a n → Covered world id a n) (round : RoundInfo)
    (totalSelected : ℕ) : Accounted { s with world, round, totalSelected } := by
  obtain ⟨⟨⟨hbooks, hbacked, hless, hapart⟩, htops, hcounted⟩, hreckoned⟩ := hs
  refine ⟨⟨⟨?_, ?_, hless, hapart⟩, htops, hcounted⟩, hreckoned⟩
  · exact ⟨hbooks.candidates, hbooks.delegators, hbooks.agree, hbooks.requests⟩
  · exact ⟨fun c m hm => h _ _ _ (hbacked.candidate c m hm),
      fun d D hD => h _ _ _ (hbacked.delegator d D hD)⟩

end Accounted

/-- The bond and the delegations are within the total. -/
def CollatorSnapshot.Whole {A : Type} (x : CollatorSnapshot A) : Prop :=
  x.bond + amounts x.delegations ≤ x.total

namespace Storage

/-- What a snapshot of a candidate shows of the stakes. -/
inductive Exposes (s : State E.toRuntime) (c : E.Account) : CollatorSnapshot E.Account → Prop where
  | mk {m : CandidateMetadata} {top : Delegations E.Account}
    (hm : s.candidateInfo.get c = some m) (htop : s.topDelegations.get c = some top) :
    Exposes s c
      ⟨m.bond, (countDelegations (s.delegationScheduledRequests c) 0 top.delegations).2,
        m.totalCounted -
          (countDelegations (s.delegationScheduledRequests c) 0 top.delegations).1⟩

/-- The snapshots of all rounds have a property. -/
def Every (P : CollatorSnapshot E.Account → Prop) (s : Storage E) : Prop :=
  ∀ r c x, (s.atStake r).get c = some x → P x

/-- The snapshots of all rounds are whole. -/
def Shared (s : Storage E) : Prop := ∀ r c x, (s.atStake r).get c = some x → x.Whole

section Count
variable {requests : List (ScheduledRequest E.Account)} {bonds : List (Bond E.Account)}

/-- What is counted of the delegations and what is not are no more than there is. -/
theorem countDelegations_le (u : ℕ) (h : ∀ x ∈ bonds, ∀ n,
      requestOf requests x.owner = some (.decrease n) → n ≤ x.amount) :
    amounts (countDelegations requests u bonds).2 + (countDelegations requests u bonds).1 ≤
      u + amounts bonds := by
  induction bonds generalizing u with
  | nil => exact Nat.le_of_eq (Nat.add_comm 0 u)
  | cons x bonds ih =>
    have ⟨hx, hrest⟩ := List.forall_mem_cons.mp h
    unfold countDelegations
    cases hrequest : requestOf requests x.owner with
    | none =>
      have hle := ih u hrest
      simp only [amounts_cons]
      omega
    | some action =>
      cases action with
      | revoke n =>
        have hle := ih (satAdd u x.amount) hrest
        simp only [amounts_cons]
        unfold satAdd at hle ⊢
        omega
      | decrease n =>
        have hn := hx n hrequest
        have hle := ih (satAdd u n) hrest
        simp only [amounts_cons]
        unfold satAdd at hle ⊢
        omega

end Count

theorem requestOf_eq_some {requests : List (ScheduledRequest E.Account)} {d : E.Account}
    {action : DelegationAction} (h : requestOf requests d = some action) :
    ∃ r ∈ requests, r.delegator = d ∧ r.action = action := by
  unfold requestOf at h
  obtain ⟨r, hr, haction⟩ := Option.map_eq_some_iff.mp h
  obtain ⟨hmem, hd⟩ := List.mem_filter.mp (List.mem_of_getLast? hr)
  exact ⟨r, hmem, of_decide_eq_true hd, haction⟩

section Exposed
variable {s : State E.toRuntime} {c : E.Account} {m : CandidateMetadata}
  {top : Delegations E.Account}

/-- What a pending decrease takes off a top delegation is less than it. -/
theorem decrease_le_top (hs : Accounted s) (hm : s.candidateInfo.get c = some m)
    (htop : s.topDelegations.get c = some top) {x : Bond E.Account} (hx : x ∈ top.delegations)
    {n : ℕ} (hn : requestOf (s.delegationScheduledRequests c) x.owner = some (.decrease n)) :
    n ≤ x.amount := by
  obtain ⟨top', bottom, htop', hbottom, -, -⟩ := hs.cached.sound.books.candidates.lists hm
  obtain rfl := Option.some.inj (htop.symm.trans htop')
  obtain ⟨r, hr, hd, haction⟩ := requestOf_eq_some hn
  have hmine : ⟨x.owner, x.amount⟩ ∈ s.delegationsTo c := by
    rw [delegationsTo_eq htop hbottom]
    exact List.mem_append_left _ hx
  obtain ⟨D, hD, hmem⟩ := delegator_of_mem ((hs.cached.sound.books.agree _ _ _).mp hmine)
  exact Nat.le_of_lt (hs.reckoned.decrease c r hr D x.amount n (hd ▸ hD) hmem haction)

/-- The counted stake is a balance: the bond and the top delegations. -/
theorem totalCounted_eq (hL : E.toRuntime.Lawful) (hs : Accounted s)
    (hm : s.candidateInfo.get c = some m) (htop : s.topDelegations.get c = some top) :
    m.totalCounted = m.bond + amounts top.delegations ∧ m.totalCounted ≤ maxBalance := by
  have htotal : top.total = amounts top.delegations := hs.cached.topsExact c top htop
  have hle := hs.cached.sound.count_le hL hs.cached.topsExact hm htop
  obtain ⟨top', htop', hcount⟩ := hs.cached.counted c m hm
  obtain rfl := Option.some.inj (htop.symm.trans htop')
  rw [satAdd_eq hle] at hcount
  omega

/-- A snapshot of a candidate is whole. -/
theorem Exposes.whole (hL : E.toRuntime.Lawful) (hs : Accounted s)
    {x : CollatorSnapshot E.Account} (h : Exposes s c x) : x.Whole := by
  obtain ⟨hm, htop⟩ := h
  have hle := countDelegations_le 0 fun x hx n hn => decrease_le_top hs hm htop hx hn
  have hcount := (totalCounted_eq hL hs hm htop).1
  unfold CollatorSnapshot.Whole
  dsimp only
  omega

end Exposed

section Snapshots
variable {P : CollatorSnapshot E.Account → Prop} {s s' : Storage E} {now : ℕ}

theorem snapshotAll_every (hP : ∀ c x, Exposes s.toState c x → P x) (h : s.Every P)
    {accounts : List E.Account} (hrun : snapshotAll now s accounts = .ok s') : s'.Every P := by
  induction accounts generalizing s with
  | nil =>
    obtain rfl := Exec.ok.inj hrun
    exact h
  | cons c accounts ih =>
    obtain ⟨m, hm, hrun⟩ := Exec.bind_eq_ok.mp hrun
    obtain ⟨counted, hcounted, hrun⟩ := Exec.bind_eq_ok.mp hrun
    obtain ⟨top, htop, hcounted⟩ := Exec.bind_eq_ok.mp hcounted
    obtain rfl := Exec.ok.inj hcounted
    apply ih _ _ hrun
    · exact hP
    · intro r
      dsimp only
      by_cases hr : r = now
      · rw [if_pos hr]
        have hnew := hP c _ (.mk (Exec.expect_eq_ok.mp hm) (Exec.expect_eq_ok.mp htop))
        exact forall_insert hnew fun b x _ hx => h r b x hx
      · rw [if_neg hr]
        exact h r

theorem selectTopCandidates_every (hP : ∀ c x, Exposes s.toState c x → P x) (h : s.Every P)
    (hrun : s.selectTopCandidates now = .ok s') : s'.Every P := by
  unfold selectTopCandidates at hrun
  split at hrun
  · obtain ⟨_, -, hrun⟩ := Exec.bind_eq_ok.mp hrun
    obtain rfl := Exec.ok.inj hrun
    intro r c x hx
    unfold repeatSnapshots at hx
    dsimp only at hx
    split_ifs at hx
    · rcases Option.or_eq_some_iff.mp hx with hx | ⟨-, hx⟩
      · exact h _ c x hx
      · exact h r c x hx
    · exact h r c x hx
  · obtain ⟨s₁, hall, hrun⟩ := Exec.bind_eq_ok.mp hrun
    obtain rfl := Exec.ok.inj hrun
    have hevery : s₁.Every P := snapshotAll_every hP h hall
    exact hevery

end Snapshots

section Payouts
variable {P : CollatorSnapshot E.Account → Prop} {s s' : Storage E} {r now : ℕ}

theorem Handled.every (h : Handled s r s') (hs : s.Every P) : s'.Every P := by
  cases h with
  | idle => exact hs
  | clean => exact hs
  | @draw payout c pts rest =>
    obtain ⟨w, new, hpay, -, -⟩ :=
      payCollator_paid (r := r) (c := c) (s.drain r rest) payout ((s.points.get r).getD 0) pts
    rw [hpay]
    intro r' b x hx
    have hx' : (if r' = r then (s.atStake r').remove c else s.atStake r').get b = some x := hx
    split_ifs at hx'
    · by_cases hb : b = c
      · rw [hb, get_remove_self] at hx'
        cases hx'
      · rw [get_remove_of_ne _ hb] at hx'
        exact hs r' b x hx'
    · exact hs r' b x hx'

theorem handleDelayedPayouts_every (hs : s.Every P) : (s.handleDelayedPayouts now).Every P := by
  rcases s.handleDelayedPayouts_cases now with ⟨-, h⟩ | ⟨r, -, h⟩
  · rw [h]
    exact hs
  · exact h.every hs

end Payouts
end Storage

/-- The stakes are in order, and the snapshots have a property. -/
structure Exposed (P : CollatorSnapshot E.Account → Prop) (s : Storage E) : Prop where
  accounted : Accounted s.toState
  every : s.Every P

namespace Exposed
variable {P : CollatorSnapshot E.Account → Prop} {s s' : Storage E}

/-- The balances after deposits do as well. -/
theorem deposits (hE : E.Depositing) (hs : Accounted s.toState) {w : E.World}
    (hw : E.Deposits s.world w) (round : RoundInfo) (totalSelected : ℕ) :
    Accounted { s.toState with world := w, round, totalSelected } :=
  hs.elsewhere (fun _ _ _ h => hE.covered hw h) round totalSelected

theorem handled (hE : E.Depositing) (hs : Exposed P s) (now : ℕ) :
    Exposed P (s.handleDelayedPayouts now) := by
  refine ⟨?_, Storage.handleDelayedPayouts_every hs.every⟩
  rcases s.handleDelayedPayouts_cases now with ⟨-, h⟩ | ⟨r, -, h⟩
  · rw [h]
    exact hs.accounted
  · obtain ⟨w, hw, hstakes⟩ := h.step.stakes
    rw [hstakes]
    exact deposits hE hs.accounted hw s.round s.totalSelected

/-- What prepares the payouts leaves the snapshots. -/
theorem prepared (hE : E.Depositing) (hs : Exposed P s) (now : ℕ) :
    Exposed P (s.prepareStakingPayouts now) := by
  obtain ⟨w, hw, hstakes, -, hatStake⟩ := Steady.prepared s now
  constructor
  · rw [hstakes]
    exact deposits hE hs.accounted hw s.round s.totalSelected
  · unfold Storage.Every
    rw [hatStake]
    exact hs.every

section Run
variable (hP : ∀ s : State E.toRuntime, Accounted s → ∀ c x, Storage.Exposes s c x → P x)
include hP

theorem select (hs : Exposed P s) {now : ℕ} (h : s.selectTopCandidates now = .ok s') :
    Exposed P s' := by
  have hevery := Storage.selectTopCandidates_every (hP _ hs.accounted) hs.every h
  obtain ⟨atStake, selected, rfl⟩ := (Storage.selectTopCandidates_ok h).same
  exact ⟨hs.accounted, hevery⟩

/-- A round begins. -/
theorem begun (hE : E.Depositing) (hs : Exposed P s) {n : ℕ} {s₁ : Storage E}
    (hselect : (s.prepareStakingPayouts (s.round.current + 1)).selectTopCandidates
      (s.round.current + 1) = .ok s₁) : Exposed P { s₁ with
        round := s.round.update n
        staked := s₁.staked.insert (s.round.current + 1) s₁.total } := by
  have hselected := (hs.prepared hE _).select hP hselect
  exact ⟨deposits hE hselected.accounted .refl (s.round.update n) _, hselected.every⟩

theorem onInitialize (hE : E.Depositing) (hs : Exposed P s) {n : ℕ}
    (h : s.onInitialize n = .ok s') : Exposed P s' := by
  cases Storage.onInitialize_ok h with
  | same => exact hs.handled hE _
  | begins _ hselect => exact (hs.begun hP hE hselect).handled hE _

theorem genesis (hR : E.toRuntime.Placed) (hL : E.toRuntime.Lawful) {config : GenesisConfig E}
    {world : E.World} (h : config.build world = .ok s) : Exposed P s := by
  obtain ⟨stakes, haccounted, hselect⟩ :=
    GenesisConfig.build_ok (Accounted.call hR hL) h (.genesis world)
  have hstart : Exposed P (Storage.ofStakes config stakes) := by
    constructor
    · exact haccounted.elsewhere (fun _ _ _ h => h) ⟨1, 0, E.defaultBlocksPerRound⟩
        E.minSelectedCandidates
    · intro r c x hx
      cases hx
  exact hstart.select hP hselect

theorem next (hR : E.toRuntime.Placed) (hE : E.Depositing) (hs : Exposed P s) {t : Turn E}
    (ht : t.Permitted s) (h : t.Does s s') : Exposed P s' := by
  cases h with
  | opens hrun => exact hs.onInitialize hP hE hrun
  | halts => exact hs
  | calls origin call =>
    exact ⟨Accounted.call hR hE.toLawful origin call _ hs.accounted, hs.every⟩
  | panics => exact hs
  | measures => exact ⟨hs.accounted, hs.every⟩
  | moves world =>
    constructor
    · exact hs.accounted.elsewhere (fun _ _ _ h => h.permits ht) s.round s.totalSelected
    · exact hs.every
  | closes author => exact ⟨hs.accounted, hs.every⟩

/-- What a snapshot shows of the stakes holds of the snapshots of every run. -/
theorem reached (hR : E.toRuntime.Placed) (hE : E.Depositing) {config : GenesisConfig E}
    {world : E.World} {s₀ : Storage E} (hbuild : config.build world = .ok s₀)
    {tr : List (Storage E × Turn E)} (h : LawfulTurns s₀ tr s) : Exposed P s :=
  h.invariant (genesis hP hR hE.toLawful hbuild) fun s t hs ht => hs.next hP hR hE ht (t.does s)

end Run
end Exposed

/-- Between blocks, the stakes are in order and all snapshots are whole. -/
structure Apportioned (s : Storage E) : Prop where
  accounted : Accounted s.toState
  shared : s.Shared

namespace Apportioned
variable {s s' : Storage E}

theorem whole (hL : E.toRuntime.Lawful) (s : State E.toRuntime) (hs : Accounted s)
    (c : E.Account) (x : CollatorSnapshot E.Account) (h : Storage.Exposes s c x) : x.Whole :=
  h.whole hL hs

theorem exposed (hs : Apportioned s) : Exposed CollatorSnapshot.Whole s :=
  ⟨hs.accounted, hs.shared⟩

theorem of_exposed (h : Exposed CollatorSnapshot.Whole s) : Apportioned s :=
  ⟨h.accounted, h.every⟩

/-- A round begins. -/
theorem begun (hE : E.Depositing) (hs : Apportioned s) {n : ℕ} {s₁ : Storage E}
    (hselect : (s.prepareStakingPayouts (s.round.current + 1)).selectTopCandidates
      (s.round.current + 1) = .ok s₁) : Apportioned { s₁ with
        round := s.round.update n
        staked := s₁.staked.insert (s.round.current + 1) s₁.total } :=
  of_exposed (hs.exposed.begun (whole hE.toLawful) hE hselect)

theorem genesis (hR : E.toRuntime.Placed) (hL : E.toRuntime.Lawful) {config : GenesisConfig E}
    {world : E.World} (h : config.build world = .ok s) : Apportioned s :=
  of_exposed (.genesis (whole hL) hR hL h)

theorem next (hR : E.toRuntime.Placed) (hE : E.Depositing) (hs : Apportioned s) {t : Turn E}
    (ht : t.Permitted s) (h : t.Does s s') : Apportioned s' :=
  of_exposed (hs.exposed.next (whole hE.toLawful) hR hE ht h)

end Apportioned
end Staking
end ZkNft
