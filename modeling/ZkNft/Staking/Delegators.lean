import ZkNft.Staking.Locks
import ZkNft.Staking.Reckoning

/-! Delegations that are taken out of the states of their delegators. -/

namespace ZkNft
namespace Staking
open Keyed StorageMap

variable {R : Runtime}

/-- What is left of a delegator without its delegation of `a` to `c`. -/
def Delegator.rest (D : Delegator R.Account) (c : R.Account) (a lessTotal : ℕ) :
    Delegator R.Account :=
  { D with
    delegations := D.delegations.filter fun x => x.owner ≠ c
    total := D.total - a
    lessTotal }

/-- A delegator is stored as long as it has delegations. -/
def storeRest (delegators : StorageMap R.Account (Delegator R.Account)) (d : R.Account)
    (D : Delegator R.Account) : StorageMap R.Account (Delegator R.Account) :=
  if D.delegations = [] then delegators.remove d else delegators.insert d D

section Rest
variable {D : Delegator R.Account} {c d : R.Account} {a l : ℕ}

theorem mem_rest {x : Bond R.Account} :
    x ∈ (D.rest c a l).delegations ↔ x ∈ D.delegations ∧ x.owner ≠ c := by
  rw [Delegator.rest, List.mem_filter, decide_eq_true_iff]

variable (hD : DelegatorOk R d D) (hx : ⟨c, a⟩ ∈ D.delegations)
include hD hx

theorem rest_perm : D.delegations.Perm (⟨c, a⟩ :: (D.rest c a l).delegations) :=
  hD.ordered.oneEach.perm_cons_filter hx

theorem rest_total : D.total = a + (D.rest c a l).total ∧
    (D.rest c a l).total = amounts (D.rest c a l).delegations := by
  have hsum : amounts D.delegations = a + amounts (D.rest c a l).delegations :=
    (amounts_perm (rest_perm hD hx)).trans amounts_cons
  have htotal := hD.total
  have hrest : (D.rest c a l).total = D.total - a := rfl
  constructor
  · rw [hrest]
    omega
  · rw [hrest, htotal, hsum]
    exact Nat.add_sub_cancel_left _ _

theorem rest_nil_iff : (D.rest c a l).delegations = [] ↔ D.delegations.length = 1 := by
  have hlen := (rest_perm (l := l) hD hx).length_eq
  rw [List.length_cons] at hlen
  rw [← List.length_eq_zero_iff]
  omega

/-- Amounts are positive, so only an empty list has none. -/
theorem rest_nil_iff_total : (D.rest c a l).delegations = [] ↔ (D.rest c a l).total = 0 := by
  have ⟨_, htotal⟩ := rest_total (l := l) hD hx
  rw [htotal]
  constructor
  · intro hnil
    rw [hnil, amounts_nil]
  · intro hzero
    by_contra hne
    obtain ⟨y, hy⟩ := List.exists_mem_of_ne_nil _ hne
    have hpos := hD.pos y (mem_rest.mp hy).1
    have hle := amount_le_amounts hy
    omega

theorem rest_ok (hne : (D.rest c a l).delegations ≠ []) : DelegatorOk R d (D.rest c a l) := by
  have hlen := (rest_perm (l := l) hD hx).length_eq
  have ⟨hsplit, htotal⟩ := rest_total (l := l) hD hx
  have hmax := hD.length_le
  have hle := hD.total_le
  rw [List.length_cons] at hlen
  refine ⟨hD.id, hD.ordered.sublist List.filter_sublist, hne, by omega, ?_, htotal, by omega,
    hD.status⟩
  exact fun x hx => hD.pos x (mem_rest.mp hx).1

end Rest

/-- The state of a delegator with its delegation to `c` changed by `f`. -/
def Delegator.changed (D : Delegator R.Account) (c : R.Account) (f : ℕ → ℕ)
    (total lessTotal : ℕ) : Delegator R.Account :=
  { D with delegations := changeFirst c f D.delegations, total, lessTotal }

section Changed
variable {D : Delegator R.Account} {c d : R.Account} {a : ℕ} (f : ℕ → ℕ) (total l : ℕ)
  (hD : DelegatorOk R d D) (hx : ⟨c, a⟩ ∈ D.delegations)
include hD hx

theorem changed_exchange : Exchange [⟨c, a⟩] [⟨c, f a⟩] D.delegations
    (D.changed c f total l).delegations := by
  have hone := hD.ordered.oneEach
  show Exchange _ _ _ (changeFirst c f D.delegations)
  rw [changeFirst_eq hone]
  exact Exchange.map hone hx fun y => ⟨y.owner, f y.amount⟩

theorem mem_changed {x : Bond R.Account} : x ∈ (D.changed c f total l).delegations ↔
    x = ⟨c, f a⟩ ∨ x ∈ D.delegations ∧ x.owner ≠ c := by
  rw [(changed_exchange f total l hD hx).mem_iff hD.ordered.oneEach]
  simp [eq_comm]

theorem changed_ok (hpos : 0 < f a) (htotal : total + a = D.total + f a)
    (hle : total ≤ maxBalance) : DelegatorOk R d (D.changed c f total l) := by
  have he := changed_exchange f total l hD hx
  have hlen : _ = D.delegations.length := Nat.add_right_cancel he.length
  have hsum : amounts (D.changed c f total l).delegations + a = amounts D.delegations + f a :=
    he.sum Bond.amount
  have hold := hD.total
  have hmem : (⟨c, f a⟩ : Bond R.Account) ∈ (D.changed c f total l).delegations :=
    (mem_changed f total l hD hx).mpr (.inl rfl)
  refine ⟨hD.id, hD.ordered.changeFirst f, List.ne_nil_of_mem hmem, ?_, ?_, ?_, hle, hD.status⟩
  · rw [hlen]
    exact hD.length_le
  · intro x hxmem
    rcases (mem_changed f total l hD hx).mp hxmem with rfl | ⟨hxmem, _⟩
    · exact hpos
    · exact hD.pos x hxmem
  · show total = _
    omega

end Changed

section Storage
variable {s : State R} {delegators : StorageMap R.Account (Delegator R.Account)}
  {d d' : R.Account} {D D' : Delegator R.Account}

theorem get_storeRest_self :
    (storeRest delegators d D).get d = if D.delegations = [] then none else some D := by
  unfold storeRest
  split_ifs
  · exact get_remove_self _ _
  · exact get_insert_self _ _ _

theorem get_storeRest_of_ne (h : d' ≠ d) :
    (storeRest delegators d D).get d' = delegators.get d' := by
  unfold storeRest
  split_ifs
  · exact get_remove_of_ne _ h
  · exact get_insert_of_ne _ _ h

end Storage

section Runs
variable {s : State R} {c d : R.Account} {a : ℕ} {D : Delegator R.Account}

theorem adjustBondLock_decrease :
    D.adjustBondLock .decrease s = (.ok ⟨⟩, { s with world := R.relock s.world D }) := by
  unfold Delegator.adjustBondLock Runtime.relock
  exact (Tx.bind_run_of_ok (Tx.pure_run _)).trans rfl

theorem adjustBondLock_increase_ok {s' : State R} {u : PUnit} {amount : ℕ}
    (h : D.adjustBondLock (.increase amount) s = (.ok u, s')) :
    amount ≤ s.delegatorStakableFreeBalance D.id ∧
      s' = { s with world := R.relock s.world D } := by
  unfold Delegator.adjustBondLock at h
  by_cases hfree : amount ≤ s.delegatorStakableFreeBalance D.id
  · have h := (ensure_bind (decide_eq_true hfree)).symm.trans h
    obtain ⟨_, _, hlock⟩ := Tx.read_bind_ok.mp h
    exact ⟨hfree, (Prod.mk.inj hlock).2.symm⟩
  · have h := (ensure_bind_false (decide_eq_false hfree)).symm.trans h
    cases h

theorem rmDelegation_run (hD : DelegatorOk R d D) (hx : ⟨c, a⟩ ∈ D.delegations) :
    D.rmDelegation c s = (.ok (some (D.rest c a D.lessTotal).total, D.rest c a D.lessTotal),
      { s with world := R.relock s.world (D.rest c a D.lessTotal) }) := by
  unfold Delegator.rmDelegation
  rw [filter_owner hD.ordered.oneEach hx]
  have hset : OrderedSet.ofList (D.delegations.filter fun x => x.owner ≠ c) = _ :=
    OrderedSet.ofList_eq (hD.ordered.sublist List.filter_sublist)
  simp only [List.getLast?_singleton, Option.map_some, hset]
  have hrun : Tx.expectOk "Decreasing lock cannot fail, qed"
      (Delegator.totalSub { D with delegations := D.delegations.filter fun x => x.owner ≠ c } a) s =
      (.ok (D.rest c a D.lessTotal),
        { s with world := R.relock s.world (D.rest c a D.lessTotal) }) := by
    have hsub : Delegator.totalSub
        { D with delegations := D.delegations.filter fun x => x.owner ≠ c } a s =
        (.ok (D.rest c a D.lessTotal),
          { s with world := R.relock s.world (D.rest c a D.lessTotal) }) :=
      (Tx.bind_run_of_ok adjustBondLock_decrease).trans rfl
    rw [Tx.expectOk, hsub]
  exact (Tx.bind_run_of_ok hrun).trans rfl

theorem delegationRemoveRequestWithState_run : delegationRemoveRequestWithState c d D s =
    (.ok { D with
      lessTotal := D.lessTotal - requestedBy d (s.delegationScheduledRequests c) },
      s.setRequests c (dropRequest d (s.delegationScheduledRequests c))) := by
  unfold delegationRemoveRequestWithState
  have hread : ∀ g : List (ScheduledRequest R.Account) → Update R (Delegator R.Account),
      ((Tx.read fun s : State R => .ok (s.delegationScheduledRequests c)) >>= g) s =
        g (s.delegationScheduledRequests c) s := fun _ => rfl
  rw [hread]
  cases htake : takeRequest d (s.delegationScheduledRequests c) with
  | some taken =>
    obtain ⟨request, rest⟩ := taken
    unfold takeRequest at htake
    obtain ⟨r, hfind, hr⟩ := Option.map_eq_some_iff.mp htake
    obtain ⟨rfl, rfl⟩ := Prod.mk.inj hr
    have hamount : requestedBy d (s.delegationScheduledRequests c) = r.action.amount := by
      rw [requestedBy, hfind]
      rfl
    rw [hamount]
    rfl
  | none =>
    have hfind := Option.map_eq_none_iff.mp htake
    have hkeep : dropRequest d (s.delegationScheduledRequests c) =
        s.delegationScheduledRequests c := by
      apply List.eraseP_of_forall_not
      intro r hr
      simpa using List.find?_eq_none.mp hfind r hr
    have hzero : requestedBy d (s.delegationScheduledRequests c) = 0 := by
      rw [requestedBy, hfind]
      rfl
    rw [hkeep, hzero]
    have hsame : s.setRequests c (s.delegationScheduledRequests c) = s := by
      unfold State.setRequests
      congr 1
      funext c'
      split_ifs with hc
      · rw [hc]
      · rfl
    rw [hsame]
    rfl

end Runs

/-- A delegation of `a` by `k` to `c` that goes out of the state of `k`. -/
structure Drop (s : State R) (c k : R.Account) (a : ℕ) where
  delegator : Delegator R.Account
  lessTotal : ℕ
  world : R.World
  get : s.delegatorState.get k = some delegator
  ok : DelegatorOk R k delegator
  mem : ⟨c, a⟩ ∈ delegator.delegations
  less : lessTotal = delegator.lessTotal - requestedBy k (s.delegationScheduledRequests c)
  free : R.Lawful → ∀ b, R.freeBalance world b = R.freeBalance s.world b
  covers : R.Lawful → ∀ {id b n}, Covered s.world id b n → id ≠ .delegator ∨ b ≠ k →
    Covered world id b n
  covers_self : R.Lawful → Covered s.world .delegator k delegator.total →
    (delegator.rest c a lessTotal).delegations ≠ [] →
    Covered world .delegator k (delegator.rest c a lessTotal).total
  lock : R.Locking →
    R.lock world .delegator k = lockOf (delegator.rest c a lessTotal).total
  lock_other : R.Lawful → ∀ id b, id ≠ .delegator ∨ b ≠ k →
    R.lock world id b = R.lock s.world id b

namespace Drop
variable {s : State R} {c k : R.Account} {a : ℕ} (v : Drop s c k a)

def result : State R :=
  { s.setRequests c (dropRequest k (s.delegationScheduledRequests c)) with
    delegatorState := storeRest s.delegatorState k (v.delegator.rest c a v.lessTotal)
    world := v.world }

theorem delegationsOf_self : v.result.delegationsOf k =
    (v.delegator.rest c a v.lessTotal).delegations := by
  have hget : v.result.delegatorState.get k = _ := get_storeRest_self
  rw [State.delegationsOf, hget]
  split_ifs with hnil
  · rw [hnil]
    rfl
  · rfl

theorem delegationsOf_other {d : R.Account} (h : d ≠ k) :
    v.result.delegationsOf d = s.delegationsOf d := by
  have hget : v.result.delegatorState.get d = _ := get_storeRest_of_ne h
  rw [State.delegationsOf, hget]
  rfl

theorem mem_delegationsOf {d : R.Account} {x : Bond R.Account} :
    x ∈ v.result.delegationsOf d ↔ x ∈ s.delegationsOf d ∧ ¬ (d = k ∧ x.owner = c) := by
  by_cases hd : d = k
  · rw [hd, v.delegationsOf_self, mem_rest, delegationsOf_eq v.get]
    simp
  · rw [v.delegationsOf_other hd]
    simp [hd]

/-- Who has a state afterwards: `k` when a delegation is left, and the others as before. -/
theorem get_result {d : R.Account} {D : Delegator R.Account}
    (hD : v.result.delegatorState.get d = some D) :
    d = k ∧ D = v.delegator.rest c a v.lessTotal ∧
        (v.delegator.rest c a v.lessTotal).delegations ≠ [] ∨
      d ≠ k ∧ s.delegatorState.get d = some D := by
  by_cases hd : d = k
  · subst hd
    have hget : v.result.delegatorState.get d = _ := get_storeRest_self
    rw [hget] at hD
    split_ifs at hD with hnil
    exact .inl ⟨rfl, (Option.some.inj hD).symm, hnil⟩
  · have hget : v.result.delegatorState.get d = _ := get_storeRest_of_ne hd
    rw [hget] at hD
    exact .inr ⟨hd, hD⟩

theorem delegatorsOk (h : DelegatorsOk s) : DelegatorsOk v.result := by
  intro d D hD
  obtain ⟨rfl, rfl, hnil⟩ | ⟨-, hD⟩ := v.get_result hD
  · exact rest_ok v.ok v.mem hnil
  · exact h d D hD

theorem keys {b : R.Account} (hb : s.delegatorState.get b = none) :
    v.result.delegatorState.get b = none := by
  have hne : b ≠ k := (ne_of_get v.get hb).symm
  exact (get_storeRest_of_ne hne).trans hb

theorem backed (hL : R.Lawful) (h : Backed s) : Backed v.result := by
  constructor
  · intro b m hm
    exact v.covers hL (h.candidate b m hm) (.inl LockId.noConfusion)
  · intro d D hD
    obtain ⟨rfl, rfl, hnil⟩ | ⟨hd, hD⟩ := v.get_result hD
    · exact v.covers_self hL (h.delegator d _ v.get) hnil
    · exact v.covers hL (h.delegator d D hD) (.inr hd)

theorem locked (hL : R.Locking) (h : Locked s) : Locked v.result := by
  constructor
  · intro b
    exact (v.lock_other hL.toLawful _ _ (.inl LockId.noConfusion)).trans (h.collator b)
  · intro b
    by_cases hb : b = k
    · subst hb
      have hget : v.result.delegatorState.get b = _ := get_storeRest_self
      have hzero := rest_nil_iff_total (l := v.lessTotal) v.ok v.mem
      rw [hget]
      refine (v.lock hL).trans ?_
      split_ifs with hnil
      · rw [hzero.mp hnil]
        rfl
      · rfl
    · have hget : v.result.delegatorState.get b = _ := get_storeRest_of_ne hb
      rw [hget]
      exact (v.lock_other hL.toLawful _ _ (.inr hb)).trans (h.delegator b)

/-- The requests of others stay. -/
theorem requestedBy_other {d b : R.Account} (h : d ≠ k ∨ b ≠ c) :
    requestedBy d (v.result.delegationScheduledRequests b) =
      requestedBy d (s.delegationScheduledRequests b) := by
  by_cases hb : b = c
  · have hd := h.resolve_right (not_not.mpr hb)
    have hrequests : v.result.delegationScheduledRequests b = _ := if_pos hb
    rw [hrequests, requestedBy_drop_other hd, hb]
  · have hrequests : v.result.delegationScheduledRequests b = _ := if_neg hb
    rw [hrequests]

theorem mem_requests {b : R.Account} {r : ScheduledRequest R.Account}
    (hr : r ∈ v.result.delegationScheduledRequests b) : r ∈ s.delegationScheduledRequests b := by
  by_cases hb : b = c
  · have hrequests : v.result.delegationScheduledRequests b = _ := if_pos hb
    rw [hrequests] at hr
    rw [hb]
    exact dropRequest_sublist.subset hr
  · have hrequests : v.result.delegationScheduledRequests b = _ := if_neg hb
    rw [hrequests] at hr
    exact hr

theorem reckoned (h : Reckoned s) : Reckoned v.result := by
  constructor
  · intro d D hD
    obtain ⟨rfl, rfl, -⟩ | ⟨hd, hD⟩ := v.get_result hD
    · have hsum : requested s.delegationScheduledRequests d v.delegator.delegations = _ :=
        requested_perm (rest_perm (l := v.lessTotal) v.ok v.mem)
      rw [requested_cons, ← h.less d _ v.get] at hsum
      have hrest : requested v.result.delegationScheduledRequests d
          (v.delegator.rest c a v.lessTotal).delegations = _ :=
        requested_congr fun x hx => v.requestedBy_other (.inr (mem_rest.mp hx).2)
      rw [hrest]
      show v.lessTotal = _
      rw [v.less, hsum]
      exact Nat.add_sub_cancel_left _ _
    · rw [h.less d D hD]
      exact (requested_congr fun x _ => v.requestedBy_other (.inl hd)).symm
  · intro b r hr D a' less hD hmem
    rw [← delegationsOf_eq hD] at hmem
    obtain ⟨D₀, hD₀, hmem₀⟩ := delegator_of_mem (v.mem_delegationsOf.mp hmem).1
    exact h.decrease b r (v.mem_requests hr) D₀ a' less hD₀ hmem₀

end Drop

/-- The lock goes down to the total that is left. -/
def Drop.relock {s : State R} {c k : R.Account} {a : ℕ} {D : Delegator R.Account}
    (hD : s.delegatorState.get k = some D) (hok : DelegatorOk R k D)
    (hmem : ⟨c, a⟩ ∈ D.delegations) : Drop s c k a where
  delegator := D
  lessTotal := D.lessTotal - requestedBy k (s.delegationScheduledRequests c)
  world := R.relock s.world (D.rest c a D.lessTotal)
  get := hD
  ok := hok
  mem := hmem
  less := rfl
  free hL _ := relock_free hL
  covers hL _ _ _ hcov hne := hcov.relock hL (hok.id ▸ hne)
  covers_self hL hcov _ := by
    have hfree := hcov.free
    have ⟨hsplit, _⟩ := rest_total (l := D.lessTotal) hok hmem
    have hcov' := covered_relock (w := s.world) (D := D.rest c a D.lessTotal) hL
    rw [show (D.rest c a D.lessTotal).id = k from hok.id] at hcov'
    exact hcov' (by omega)
  lock hL := by
    have hlock := lock_relock_self (w := s.world) (D := D.rest c a D.lessTotal) hL
    rw [show (D.rest c a D.lessTotal).id = k from hok.id] at hlock
    exact hlock
  lock_other hL _ _ hne := lock_relock_other hL (hok.id ▸ hne)

section DropRuns
variable {s : State R} {c k : R.Account} {a : ℕ} (hs : DelegatorsOk s)
  (hx : ⟨c, a⟩ ∈ s.delegationsOf k)
include hs hx

theorem kick_run : ∃ v : Drop s c k a,
    CandidateMetadata.kick c ⟨k, a⟩ s = (.ok ⟨⟩, v.result) := by
  obtain ⟨D, hD, hmem⟩ := delegator_of_mem hx
  have hok := hs k D hD
  have hreq := delegationRemoveRequestWithState_run (c := c) (d := k)
    (D := D.rest c a D.lessTotal)
    (s := { s with world := R.relock s.world (D.rest c a D.lessTotal) })
  have hnil := rest_nil_iff
    (l := D.lessTotal - requestedBy k (s.delegationScheduledRequests c)) hok hmem
  refine ⟨.relock hD hok hmem, ?_⟩
  unfold CandidateMetadata.kick
  rw [getExpect_bind hD]
  refine (Tx.bind_run_of_ok (rmDelegation_run hok hmem)).trans ?_
  refine (Tx.bind_run_of_ok hreq).trans ?_
  unfold Drop.result Drop.relock storeRest
  by_cases hlen : D.delegations.length = 1
  · rw [if_pos (hnil.mpr hlen), decide_eq_true hlen]
    rfl
  · rw [if_neg fun h => hlen (hnil.mp h), decide_eq_false hlen]
    rfl

theorem returnStake_run : ∃ v : Drop s c k a, returnStake c ⟨k, a⟩ s = (.ok ⟨⟩, v.result) := by
  obtain ⟨D, hD, hmem⟩ := delegator_of_mem hx
  have hok := hs k D hD
  have hreq := delegationRemoveRequestWithState_run (c := c) (d := k)
    (D := D.rest c a D.lessTotal)
    (s := { s with world := R.relock s.world (D.rest c a D.lessTotal) })
  let l := D.lessTotal - requestedBy k (s.delegationScheduledRequests c)
  have hnil : (D.rest c a l).delegations = [] ↔ (D.rest c a D.lessTotal).total = 0 :=
    rest_nil_iff_total hok hmem
  have hrun : ∀ s', (if (D.rest c a D.lessTotal).total = 0 then
        { s.setRequests c (dropRequest k (s.delegationScheduledRequests c)) with
          delegatorState := s.delegatorState.remove k
          world := R.removeLock (R.relock s.world (D.rest c a D.lessTotal)) .delegator k }
      else
        { s.setRequests c (dropRequest k (s.delegationScheduledRequests c)) with
          delegatorState := s.delegatorState.insert k (D.rest c a l)
          world := R.relock s.world (D.rest c a D.lessTotal) }) = s' →
      returnStake c ⟨k, a⟩ s = (.ok ⟨⟩, s') := by
    intro s' hs'
    unfold returnStake
    rw [getOr_bind hD]
    refine (Tx.bind_run_of_ok (rmDelegation_run hok hmem)).trans ?_
    refine (Tx.bind_run_of_ok hreq).trans ?_
    rw [← hs']
    rfl
  by_cases hzero : (D.rest c a D.lessTotal).total = 0
  · refine ⟨{ Drop.relock hD hok hmem with
      world := R.removeLock (R.relock s.world (D.rest c a D.lessTotal)) .delegator k
      free := ?_
      covers := ?_
      covers_self := ?_
      lock := ?_
      lock_other := ?_ }, hrun _ ?_⟩
    · intro hL b
      exact (hL.removeLock_free ..).trans (relock_free hL)
    · intro hL _ _ _ hcov hne
      exact ((Drop.relock hD hok hmem).covers hL hcov hne).removeLock hL hne
    · intro _ _ hne
      exact absurd (hnil.mpr hzero) hne
    · intro hL
      have hnone : lockOf (D.rest c a D.lessTotal).total = none := if_pos hzero
      exact (hL.removeLock_self _ _ _).trans hnone.symm
    · intro hL id b hne
      exact (hL.removeLock_other _ _ _ _ _ hne).trans
        ((Drop.relock hD hok hmem).lock_other hL id b hne)
    · unfold Drop.result Drop.relock storeRest
      rw [if_pos hzero, if_pos (hnil.mpr hzero)]
  · refine ⟨.relock hD hok hmem, hrun _ ?_⟩
    unfold Drop.result Drop.relock storeRest
    rw [if_neg hzero, if_neg fun h => hzero (hnil.mp h)]

end DropRuns

/-- The state with other delegators, requests and locks. -/
def State.settled (s : State R) (delegatorState : StorageMap R.Account (Delegator R.Account))
    (delegationScheduledRequests : R.Account → List (ScheduledRequest R.Account))
    (world : R.World) : State R :=
  { s with delegatorState, delegationScheduledRequests, world }

/-- The delegations of `ks` to `c` are out of the states of their delegators, and nothing else has
changed there. -/
structure Returned (s s' : State R) (c : R.Account) (ks : List R.Account) : Prop where
  requests : ∀ c', c' ≠ c → s'.delegationScheduledRequests c' = s.delegationScheduledRequests c'
  mem_delegationsOf : ∀ d x, x ∈ s'.delegationsOf d ↔
    x ∈ s.delegationsOf d ∧ ¬ (d ∈ ks ∧ x.owner = c)
  delegators : DelegatorsOk s'
  keys : ∀ d, s.delegatorState.get d = none → s'.delegatorState.get d = none
  backed : R.Lawful → Backed s → Backed s'
  locked : R.Locking → Locked s → Locked s'
  reckoned : Reckoned s → Reckoned s'

namespace Returned
variable {s s₁ s' : State R} {c k : R.Account} {ks ks' : List R.Account} {a : ℕ}

theorem refl (hs : DelegatorsOk s) : Returned s s c [] :=
  ⟨fun _ _ => rfl, by simp, hs, fun _ h => h, fun _ h => h, fun _ h => h, id⟩

theorem append (h : Returned s s₁ c ks) (h' : Returned s₁ s' c ks') :
    Returned s s' c (ks ++ ks') := by
  refine ⟨?_, ?_, h'.delegators, fun d hd => h'.keys d (h.keys d hd),
    fun hL hb => h'.backed hL (h.backed hL hb), fun hL hb => h'.locked hL (h.locked hL hb),
    h'.reckoned ∘ h.reckoned⟩
  · intro c' hc
    exact (h'.requests c' hc).trans (h.requests c' hc)
  · intro d x
    rw [h'.mem_delegationsOf, h.mem_delegationsOf, List.mem_append]
    tauto

theorem drop (v : Drop s c k a) (hs : DelegatorsOk s) : Returned s v.result c [k] := by
  refine ⟨fun c' hc => if_neg hc, ?_, v.delegatorsOk hs, fun _ hd => v.keys hd, v.backed,
    v.locked, v.reckoned⟩
  intro d x
  rw [v.mem_delegationsOf, List.mem_singleton]

end Returned

/-- The loop over the delegations to a leaving candidate. -/
theorem returnStakes_run {s : State R} {c : R.Account} {bonds : List (Bond R.Account)}
    (hs : DelegatorsOk s) (hone : OneEach bonds)
    (hmem : ∀ x ∈ bonds, ⟨c, x.amount⟩ ∈ s.delegationsOf x.owner) :
    ∃ delegators requests world,
      returnStakes c bonds s = (.ok ⟨⟩, s.settled delegators requests world) ∧
        Returned s (s.settled delegators requests world) c (bonds.map Bond.owner) := by
  induction bonds generalizing s with
  | nil => exact ⟨s.delegatorState, s.delegationScheduledRequests, s.world, rfl, .refl hs⟩
  | cons x bonds ih =>
    have ⟨hne, hrest⟩ := distinct_cons.mp hone
    have ⟨hx, hbonds⟩ := List.forall_mem_cons.mp hmem
    obtain ⟨v, hrun⟩ := returnStake_run hs hx
    have hmem' : ∀ y ∈ bonds, ⟨c, y.amount⟩ ∈ v.result.delegationsOf y.owner := by
      intro y hy
      rw [v.delegationsOf_other (hne y hy)]
      exact hbonds y hy
    obtain ⟨delegators, requests, world, hloop, hreturned⟩ := ih (v.delegatorsOk hs) hrest hmem'
    exact ⟨delegators, requests, world, (Tx.bind_run_of_ok hrun).trans hloop,
      (Returned.drop v hs).append hreturned⟩

end Staking
end ZkNft
