import ZkNft.Staking.Pending
import ZkNft.Staking.Pool
import ZkNft.Staking.Retiring

/-! What is scheduled can be taken back: the call that cancels leaves the state as it would be
without the call that scheduled, or what is not put back is named. -/

namespace ZkNft
namespace Staking
open Keyed StorageMap

variable {R : Runtime}

/-- A call, and the call by which the same account takes it back. -/
inductive TakesBack : Call R → Call R → Prop where
  | goOnline : TakesBack .goOffline .goOnline
  | cancelLeaveCandidates {n k : ℕ} (h : n ≤ k) :
    TakesBack (.scheduleLeaveCandidates n) (.cancelLeaveCandidates k)
  | cancelCandidateBondLess (less : ℕ) :
    TakesBack (.scheduleCandidateBondLess less) .cancelCandidateBondLess
  | cancelRevoke (c : R.Account) :
    TakesBack (.scheduleRevokeDelegation c) (.cancelDelegationRequest c)
  | cancelDecrease (c : R.Account) (less : ℕ) :
    TakesBack (.scheduleDelegatorBondLess c less) (.cancelDelegationRequest c)
  | cancelLeaveDelegators : TakesBack .scheduleLeaveDelegators .cancelLeaveDelegators

/-- Taking the call back puts everything back: a candidate is active before it is to leave, and a
delegator that is to leave has no requests before. -/
def PutsBack (s : State R) (a : R.Account) : Call R → Prop
  | .scheduleLeaveCandidates _ => ∀ m, s.candidateInfo.get a = some m → m.status = .active
  | .scheduleLeaveDelegators =>
    ∀ c, ∀ r ∈ s.delegationScheduledRequests c, r.delegator ≠ a
  | _ => True

/-- Blocks pass, and balances change. -/
inductive Passes : Move R → Prop where
  | block (now : ℕ) : Passes (.block now)
  | other (world : R.World) : Passes (.other world)

/-- The same books in a later round, with other balances. -/
def State.later (s : State R) (round : RoundInfo) (world : R.World) : State R :=
  { s with round, world }

section Waiting
variable {s : State R} {waits : List (Move R)}

/-- Waiting changes the round and the balances, whatever else is in the state. -/
theorem foldl_passes (h : ∀ m ∈ waits, Passes m) : ∃ round world, ∀ t : State R,
    t.round = s.round → t.world = s.world → waits.foldl Move.next t = t.later round world := by
  induction waits generalizing s with
  | nil =>
    refine ⟨s.round, s.world, ?_⟩
    intro t hround hworld
    rw [← hround, ← hworld]
    rfl
  | cons m waits ih =>
    obtain ⟨hm, hrest⟩ := List.forall_mem_cons.mp h
    obtain ⟨round, world, hlater⟩ := ih (s := m.next s) hrest
    refine ⟨round, world, ?_⟩
    intro t hround hworld
    rw [List.foldl_cons]
    cases hm with
    | block now =>
      refine (hlater (t.startBlock now) ?_ hworld).trans rfl
      show (if t.round.shouldUpdate now then _ else _) = if s.round.shouldUpdate now then _ else _
      rw [hround]
    | other world' => exact (hlater { t with world := world' } hround rfl).trans rfl

end Waiting

/-- The call that led from `s` to `s₁` can be taken back at any time. This then goes through, and
what `s` has become meanwhile is put back exactly under `p`. -/
structure TakenBack (cancel : Update R PUnit) (s s₁ : State R) (p : Prop) : Prop where
  round : s₁.round = s.round
  world : s₁.world = s.world
  back : ∀ round world, ∃ s', cancel (s₁.later round world) = (.ok ⟨⟩, s') ∧
    (s' = s.later round world ↔ p)

section Candidates
variable {s s₁ : State R} {a : R.Account} {m : CandidateMetadata} {u : PUnit}
  {pool : List (Bond R.Account)}

theorem ByOwner.eq_of_mem {pool' : List (Bond R.Account)} (h : ByOwner pool) (h' : ByOwner pool')
    (hmem : ∀ x, x ∈ pool ↔ x ∈ pool') : pool = pool' := by
  have hperm := (List.perm_ext_iff_of_nodup (h.oneEach.of_map _) (h'.oneEach.of_map _)).mpr hmem
  apply hperm.eq_of_pairwise _ h h'
  intro x y _ _ hxy hyx
  exact absurd hyx (lt_asymm hxy)

theorem remove_sublist (pool : List (Bond R.Account)) (a : R.Account) :
    ((OrderedSet.remove pool a).getD pool).Sublist pool := by
  unfold OrderedSet.remove
  cases OrderedSet.search pool a with
  | ok i => exact List.eraseIdx_sublist pool i
  | error i => exact List.Sublist.refl pool

/-- A candidate that is not in the pool can come back in. -/
theorem insert_removed (h : ByOwner pool) (a : R.Account) (n : ℕ) :
    ∃ pool', OrderedSet.insert ((OrderedSet.remove pool a).getD pool) ⟨a, n⟩ = some pool' := by
  obtain ⟨hordered, hmem⟩ := OrderedSet.remove_getD h a
  exact OrderedSet.insert_of_new hordered fun y hy => ((hmem y).mp hy).2

/-- Where its entry was, it is again. -/
theorem insert_removed_self (h : ByOwner pool) {n : ℕ} (ha : ⟨a, n⟩ ∈ pool) :
    OrderedSet.insert ((OrderedSet.remove pool a).getD pool) ⟨a, n⟩ = some pool := by
  obtain ⟨hordered, hmem⟩ := OrderedSet.remove_getD h a
  obtain ⟨pool', hpool'⟩ := insert_removed h a n
  obtain ⟨hperm, hordered', -⟩ := OrderedSet.insert_eq_some hordered hpool'
  have hsame : pool' = pool := by
    apply hordered'.eq_of_mem h
    intro y
    rw [hperm.mem_iff, List.mem_cons, hmem]
    constructor
    · rintro (rfl | ⟨hy, -⟩)
      · exact ha
      · exact hy
    · intro hy
      by_cases hya : y.owner = a
      · exact .inl (h.oneEach.eq_of_key hy ha hya)
      · exact .inr ⟨hy, hya⟩
  rw [hpool', hsame]

/-- A candidate that has gone out of the pool comes back online, as it was if it was active. -/
theorem storeInserted_back (hpool : PoolExact s.candidatePool s.candidateInfo)
    (hm : s.candidateInfo.get a = some m) (m₁ : CandidateMetadata) (round : RoundInfo)
    (world : R.World) : ∃ s', storeInserted a { m with status := .active }
      ((s.edit a m₁ ((OrderedSet.remove s.candidatePool a).getD s.candidatePool)).later
        round world) = (.ok ⟨⟩, s') ∧
      (s' = s.later round world ↔ m.status = .active) := by
  obtain ⟨pool, hinsert⟩ := insert_removed hpool.ordered a m.totalCounted
  refine ⟨_, getOr_bind_ok.mpr ⟨pool, hinsert, rfl⟩, ?_⟩
  constructor
  · intro hsame
    have hget := congrArg (fun t : State R => t.candidateInfo.get a) hsame
    have hback : some { m with status := .active } = some m :=
      (get_insert_self _ _ _).symm.trans (hget.trans hm)
    exact (congrArg CandidateMetadata.status (Option.some.inj hback)).symm
  · intro hactive
    have hentry : ⟨a, m.totalCounted⟩ ∈ s.candidatePool :=
      (hpool.mem_iff _).mpr ⟨m, hm, hactive, rfl⟩
    have hback : pool = s.candidatePool :=
      Option.some.inj (hinsert.symm.trans (insert_removed_self hpool.ordered hentry))
    have hmeta : { m with status := .active } = m := by rw [← hactive]
    have hinfo : (s.candidateInfo.insert a m₁).insert a m = s.candidateInfo := by
      rw [insert_insert, insert_of_get hm]
    show { s with
      candidateInfo := (s.candidateInfo.insert a m₁).insert a { m with status := .active }
      candidatePool := pool
      round
      world } = s.later round world
    rw [hmeta, hinfo, hback]
    rfl

section Calls
variable {round : RoundInfo} {world : R.World}

theorem goOffline_back (hpool : PoolExact s.candidatePool s.candidateInfo)
    (h : goOffline (.signed a) s = (.ok u, s₁)) :
    TakenBack (goOnline (.signed a)) s s₁ True := by
  simp only [goOffline, Tx.transactional_run_ok, Tx.read_bind_ok, editCandidate_bind_ok,
    RawOrigin.ensureSigned_eq_ok, RawOrigin.signed.injEq, exists_eq_left'] at h
  obtain ⟨m, m', hm, hoffline, hstore⟩ := h
  split_ifs at hoffline with hactive
  obtain rfl := Except.ok.inj hoffline
  obtain rfl := Tx.modify_ok.mp hstore
  refine ⟨rfl, rfl, ?_⟩
  intro round world
  obtain ⟨s', hrun, hback⟩ := storeInserted_back hpool hm m.goOffline round world
  refine ⟨s', ?_, hback.trans (iff_of_true (isActive_iff.mp hactive) trivial)⟩
  simp only [goOnline, Tx.transactional_run_ok, Tx.read_bind_ok, editCandidate_bind_ok,
    RawOrigin.ensureSigned_eq_ok, RawOrigin.signed.injEq, exists_eq_left']
  exact ⟨_, _, get_insert_self _ _ _, rfl, hrun⟩

theorem scheduleLeaveCandidates_back {n k : ℕ} (hpool : PoolExact s.candidatePool s.candidateInfo)
    (hnk : n ≤ k) (h : scheduleLeaveCandidates (.signed a) n s = (.ok u, s₁)) :
    TakenBack (cancelLeaveCandidates (.signed a) k) s s₁
      (PutsBack s a (.scheduleLeaveCandidates n)) := by
  simp only [scheduleLeaveCandidates, Tx.transactional_run_ok, Tx.read_bind_ok,
    editCandidate_bind_ok, ensure_bind_ok, RawOrigin.ensureSigned_eq_ok, RawOrigin.signed.injEq,
    exists_eq_left'] at h
  obtain ⟨m, m', hm, hleave, hn, hstore⟩ := h
  unfold CandidateMetadata.scheduleLeave at hleave
  split_ifs at hleave
  obtain rfl := Except.ok.inj hleave
  obtain rfl := Tx.modify_ok.mp hstore
  refine ⟨rfl, rfl, ?_⟩
  intro round world
  obtain ⟨s', hrun, hback⟩ := storeInserted_back hpool hm
    { m with status := .leaving (addRounds s.round.current R.leaveCandidatesDelay) } round world
  refine ⟨s', ?_, hback.trans ?_⟩
  · simp only [cancelLeaveCandidates, Tx.transactional_run_ok, Tx.read_bind_ok,
      editCandidate_bind_ok, ensure_bind_ok, RawOrigin.ensureSigned_eq_ok, RawOrigin.signed.injEq,
      exists_eq_left']
    have hlength := (of_decide_eq_true hn).trans hnk
    refine ⟨_, _, get_insert_self _ _ _, rfl, decide_eq_true ?_, hrun⟩
    exact (remove_sublist s.candidatePool a).length_le.trans hlength
  · constructor
    · intro hactive m' hm'
      rw [← Option.some.inj (hm.symm.trans hm')]
      exact hactive
    · exact fun hall => hall m hm

theorem scheduleCandidateBondLess_back {less : ℕ}
    (h : scheduleCandidateBondLess (.signed a) less s = (.ok u, s₁)) :
    TakenBack (cancelCandidateBondLess (.signed a)) s s₁ True := by
  simp only [scheduleCandidateBondLess, Tx.transactional_run_ok, Tx.read_bind_ok,
    editCandidate_bind_ok, Tx.modify_ok, RawOrigin.ensureSigned_eq_ok, RawOrigin.signed.injEq,
    exists_eq_left'] at h
  obtain ⟨m, m', hm, hless, rfl⟩ := h
  unfold CandidateMetadata.scheduleBondLess at hless
  split_ifs at hless with hnone hbond hmin
  obtain rfl := Except.ok.inj hless
  refine ⟨rfl, rfl, ?_⟩
  intro round world
  refine ⟨s.later round world, ?_, iff_of_true rfl trivial⟩
  simp only [cancelCandidateBondLess, Tx.transactional_run_ok, Tx.read_bind_ok,
    editCandidate_bind_ok, Tx.modify_ok, RawOrigin.ensureSigned_eq_ok, RawOrigin.signed.injEq,
    exists_eq_left']
  refine ⟨_, m, get_insert_self _ _ _, ?_, ?_⟩
  · have hrequest : m.request = none := by simpa using hnone
    show Except.ok { m with request := none } = _
    rw [← hrequest]
  · show _ = { s with
      candidateInfo := (s.candidateInfo.insert a _).insert a m
      round
      world }
    rw [insert_insert, insert_of_get hm]
    rfl

end Calls

end Candidates

section Requests
variable {s s₁ : State R} {a c : R.Account} {D : Delegator R.Account} {u : PUnit}
  {requests : List (ScheduledRequest R.Account)} {r : ScheduledRequest R.Account}

theorem dropRequest_of_none (h : ∀ r ∈ requests, r.delegator ≠ a) :
    dropRequest a requests = requests :=
  List.eraseP_of_forall_not fun r hr => by simpa using h r hr

/-- The request that was added last is the one that goes. -/
theorem dropRequest_append (h : ∀ r ∈ requests, r.delegator ≠ a) (hr : r.delegator = a) :
    dropRequest a (requests ++ [r]) = requests := by
  unfold dropRequest
  rw [List.eraseP_append_right _ fun q hq => by simpa using h q hq,
    List.eraseP_cons_of_pos (by simpa using hr), List.append_nil]

theorem dropRequest_eq_self_iff (h : Distinct ScheduledRequest.delegator requests) :
    dropRequest a requests = requests ↔ ∀ r ∈ requests, r.delegator ≠ a := by
  constructor
  · intro hsame r hr
    rw [← hsame] at hr
    exact ne_of_mem_dropRequest h hr
  · exact dropRequest_of_none

/-- With the requests of a delegator its state is back, as it counts them. -/
theorem Reckons.back {Q : R.Account → List (ScheduledRequest R.Account)}
    {D₁ : Delegator R.Account} {l : ℕ} {round : RoundInfo} {world : R.World}
    (hr : Reckoned s) (hD : s.delegatorState.get a = some D)
    (hr' : Reckons ((s.delegatorState.insert a D₁).insert a { D with lessTotal := l }) Q)
    (hQ : Q = s.delegationScheduledRequests) :
    ({ s with
      delegationScheduledRequests := Q
      delegatorState := (s.delegatorState.insert a D₁).insert a { D with lessTotal := l }
      round
      world } : State R) = s.later round world := by
  subst hQ
  have hless : l = D.lessTotal := by
    rw [hr.less a D hD]
    exact hr'.less a _ (get_insert_self _ _ _)
  rw [insert_insert, hless, insert_of_get hD]
  rfl

theorem later_books (hs : Books s) (round : RoundInfo) (world : R.World) :
    Books (s.later round world) :=
  ⟨hs.candidates, hs.delegators, hs.agree, hs.requests⟩

/-- Each list of requests has a revoke of the delegator in place of what it had. -/
theorem rescheduleAll_lists {when n : ℕ} {D' : Delegator R.Account} {bonds : List (Bond R.Account)}
    {updated : List (R.Account × List (ScheduledRequest R.Account))} (hs : Books s)
    (hbonds : ∀ x ∈ bonds, x ∈ s.delegationsOf a)
    (h : rescheduleAll s a when D bonds = (D', updated, n)) : ∀ x ∈ updated,
      ∃ r : ScheduledRequest R.Account, r.delegator = a ∧
        x.2 = dropRequest a (s.delegationScheduledRequests x.1) ++ [r] := by
  induction bonds generalizing D D' updated n with
  | nil =>
    simp only [rescheduleAll, Prod.mk.injEq] at h
    obtain ⟨-, rfl, -⟩ := h
    intro x hx
    cases hx
  | cons bond bonds ih =>
    obtain ⟨hbond, hrest⟩ := List.forall_mem_cons.mp hbonds
    rw [rescheduleAll] at h
    generalize hone : rescheduleRevoke s a when D bond = one at h
    obtain ⟨D₁, requests, existing⟩ := one
    generalize hall : rescheduleAll s a when D₁ bonds = all at h
    obtain ⟨D₂, updated₂, n₂⟩ := all
    simp only [hall, Prod.mk.injEq] at h
    obtain ⟨-, rfl, -⟩ := h
    obtain ⟨-, -, r, hra, -, rfl⟩ := rescheduleRevoke_fits hs hbond hone
    exact List.forall_mem_cons.mpr ⟨⟨r, hra, rfl⟩, ih hrest hall⟩

/-- Each list of requests has lost what the delegator had in it. -/
theorem cancelAll_lists {D' : Delegator R.Account} {bonds : List (Bond R.Account)}
    {updated : List (R.Account × List (ScheduledRequest R.Account))}
    (h : cancelAll s a D bonds = (D', updated)) : ∀ x ∈ updated,
      x.2 = dropRequest a (s.delegationScheduledRequests x.1) := by
  induction bonds generalizing D D' updated with
  | nil =>
    simp only [cancelAll, Prod.mk.injEq] at h
    obtain ⟨-, rfl⟩ := h
    intro x hx
    cases hx
  | cons bond bonds ih =>
    rw [cancelAll] at h
    cases hcancel : cancelRequestWithState a D (s.delegationScheduledRequests bond.owner) with
    | none =>
      generalize hall : cancelAll s a D bonds = all at h
      obtain ⟨D₂, updated₂⟩ := all
      simp only [hcancel, Option.elim_none, hall, Prod.mk.injEq] at h
      obtain ⟨-, rfl⟩ := h
      refine List.forall_mem_cons.mpr ⟨?_, ih hall⟩
      exact (dropRequest_of_none (cancelRequestWithState_eq_none hcancel)).symm
    | some cancelled =>
      obtain ⟨request, D₁, rest⟩ := cancelled
      obtain ⟨-, -, rfl, -⟩ := cancelRequestWithState_eq_some hcancel
      generalize hall : cancelAll s a D₁ bonds = all at h
      obtain ⟨D₂, updated₂⟩ := all
      simp only [hcancel, Option.elim_some, hall, Prod.mk.injEq] at h
      obtain ⟨-, rfl⟩ := h
      exact List.forall_mem_cons.mpr ⟨rfl, ih hall⟩

theorem cancelRequestWithState_append (h : ∀ r ∈ requests, r.delegator ≠ a)
    (hr : r.delegator = a) : cancelRequestWithState a D (requests ++ [r]) =
      some (r, { D with lessTotal := D.lessTotal - r.action.amount }, requests) := by
  have hfind : (requests ++ [r]).find? (fun q => q.delegator = a) = some r := by
    rw [List.find?_append, List.find?_eq_none.mpr fun q hq => by simpa using h q hq,
      List.find?_cons_of_pos (by simpa using hr)]
    rfl
  have hdrop := dropRequest_append h hr
  unfold dropRequest at hdrop
  rw [cancelRequestWithState, takeRequest, hfind, hdrop]
  rfl

theorem cancelDelegationRequest_run {t : State R} {D' : Delegator R.Account}
    (hD : t.delegatorState.get a = some D)
    (hcancel : cancelRequestWithState a D (t.delegationScheduledRequests c) =
      some (r, D', requests)) :
    cancelDelegationRequest (.signed a) c t = (.ok ⟨⟩, { t.setRequests c requests with
      delegatorState := t.delegatorState.insert a D' }) := by
  simp only [cancelDelegationRequest, delegationCancelRequest, Tx.transactional_run_ok,
    Tx.read_bind_ok, getOr_bind_ok, readRequests, Tx.modify_ok, Exec.ok.injEq,
    RawOrigin.ensureSigned_eq_ok, RawOrigin.signed.injEq, exists_eq_left']
  exact ⟨D, hD, _, hcancel, rfl⟩

/-- A delegator with a revoke of each delegation has no requests after it stays. -/
theorem cancelLeaveDelegators_run {t : State R} (ht : Books t)
    (hD : t.delegatorState.get a = some D)
    (hrevokes : ∀ x ∈ D.delegations, ∃ r ∈ t.delegationScheduledRequests x.owner,
      r.delegator = a ∧ r.action.isRevoke = true) :
    cancelLeaveDelegators (.signed a) t = (.ok ⟨⟩, { t with
      delegationScheduledRequests := fun c => dropRequest a (t.delegationScheduledRequests c)
      delegatorState := t.delegatorState.insert a { D with
        lessTotal :=
          D.lessTotal - requested t.delegationScheduledRequests a D.delegations } }) := by
  generalize hall : cancelAll t a D D.delegations = all
  obtain ⟨D', updated⟩ := all
  obtain ⟨-, hrewritten, rfl⟩ := cancelAll_fits ht hall
  obtain ⟨requests, hset, hcases⟩ := setAllRequests_eq (s := t) updated
  have hdropped : requests = fun c => dropRequest a (t.delegationScheduledRequests c) := by
    funext c
    rcases hcases c with ⟨hkeep, hne⟩ | ⟨x, hx, rfl, hrequests⟩
    · rw [hkeep]
      refine (dropRequest_of_none ?_).symm
      rintro r hr rfl
      obtain ⟨n, hlive, -⟩ := (ht.requests c).live r hr
      rw [delegationsOf_eq hD] at hlive
      obtain ⟨x, hx, hxc⟩ := hrewritten.owners _ hlive
      exact hne x hx hxc
    · rw [hrequests]
      exact cancelAll_lists hall x hx
  have hexist : (D.delegations.all fun x => delegationRequestRevokeExists t x.owner a) = true := by
    rw [List.all_eq_true]
    intro x hx
    obtain ⟨r, hr, hra, hrevoke⟩ := hrevokes x hx
    exact List.any_eq_true.mpr ⟨r, hr, by simp [hra, hrevoke]⟩
  have hactive := (ht.delegators a D hD).status
  simp only [cancelLeaveDelegators, delegatorCancelScheduledRevokeAll, Tx.transactional_run_ok,
    Tx.read_bind_ok, getOr_bind_ok, RawOrigin.ensureSigned_eq_ok, RawOrigin.signed.injEq,
    exists_eq_left']
  refine ⟨D, hD, ?_⟩
  rw [hactive]
  simp only [ensure_bind_ok, Tx.read_bind_ok, Tx.modify_ok, Exec.ok.injEq, exists_eq_left']
  refine ⟨hexist, ?_⟩
  rw [hall, ← hdropped]
  dsimp only
  rw [hset, hactive]

section Single
variable (hs₁ : Books s₁) (hr : Reckoned s) (hr₁ : Reckoned s₁)
include hs₁ hr hr₁

/-- The one request that was added is cancelled. -/
theorem scheduleRequest_back (hD : s.delegatorState.get r.delegator = some D)
    (hnone : ∀ q ∈ s.delegationScheduledRequests c, q.delegator ≠ r.delegator)
    (h : scheduleRequest c D (s.delegationScheduledRequests c) r s = (.ok u, s₁)) :
    TakenBack (cancelDelegationRequest (.signed r.delegator) c) s s₁ True := by
  obtain rfl := Tx.modify_ok.mp h
  refine ⟨rfl, rfl, ?_⟩
  intro round world
  refine ⟨s.later round world, ?_, iff_of_true rfl trivial⟩
  have hlist : (s.setRequests c (s.delegationScheduledRequests c ++
      [r])).delegationScheduledRequests c = s.delegationScheduledRequests c ++ [r] :=
    setRequests_self
  have hcancel := cancelRequestWithState_append (D := { D with
    lessTotal := satAdd D.lessTotal r.action.amount }) hnone rfl
  rw [← hlist] at hcancel
  have hrun := cancelDelegationRequest_run (t := State.later { s.setRequests c
      (s.delegationScheduledRequests c ++ [r]) with
    delegatorState := s.delegatorState.insert r.delegator
      { D with lessTotal := satAdd D.lessTotal r.action.amount } } round world)
    (get_insert_self s.delegatorState r.delegator _) hcancel
  have hbooks := later_books hs₁ round world
  have hr' := (cancelDelegationRequest_effect hbooks hrun).reckoned hbooks hr₁
  refine hrun.trans (congrArg (Prod.mk _) (Reckons.back (D := D) hr hD hr' ?_))
  funext b
  by_cases hb : b = c
  · rw [hb]
    exact setRequests_self
  · exact (setRequests_other hb).trans (setRequests_other hb)

theorem scheduleRevokeDelegation_back
    (h : scheduleRevokeDelegation (.signed a) c s = (.ok u, s₁)) :
    TakenBack (cancelDelegationRequest (.signed a) c) s s₁ True := by
  simp only [scheduleRevokeDelegation, delegationScheduleRevoke, currentRound, readRequests,
    Tx.transactional_run_ok, Tx.read_bind_ok, getOr_bind_ok, ensure_bind_ok, Exec.ok.injEq,
    RawOrigin.ensureSigned_eq_ok, RawOrigin.signed.injEq, exists_eq_left'] at h
  obtain ⟨D, hD, hnone, n, -, h⟩ := h
  exact scheduleRequest_back hs₁ hr hr₁ hD (not_hasRequest (by simpa using hnone)) h

theorem scheduleDelegatorBondLess_back {less : ℕ}
    (h : scheduleDelegatorBondLess (.signed a) c less s = (.ok u, s₁)) :
    TakenBack (cancelDelegationRequest (.signed a) c) s s₁ True := by
  simp only [scheduleDelegatorBondLess, delegationScheduleBondDecrease, currentRound, readRequests,
    Tx.transactional_run_ok, Tx.read_bind_ok, getOr_bind_ok, ensure_bind_ok, Exec.ok.injEq,
    RawOrigin.ensureSigned_eq_ok, RawOrigin.signed.injEq, exists_eq_left'] at h
  obtain ⟨D, hD, hnone, n, -, -, -, -, h⟩ := h
  exact scheduleRequest_back hs₁ hr hr₁ hD (not_hasRequest (by simpa using hnone)) h

variable (hs : Books s)
include hs

/-- All requests of the delegator go, also those that were there before. -/
theorem scheduleLeaveDelegators_back (h : scheduleLeaveDelegators (.signed a) s = (.ok u, s₁)) :
    TakenBack (cancelLeaveDelegators (.signed a)) s s₁
      (PutsBack s a .scheduleLeaveDelegators) := by
  obtain ⟨e, he, hrevokes, -⟩ := scheduleLeaveDelegators_revokes hs h
  obtain rfl := RawOrigin.signed.inj he
  simp only [scheduleLeaveDelegators, delegatorScheduleRevokeAll, Tx.transactional_run_ok,
    Tx.read_bind_ok, getOr_bind_ok, currentRound, ensure_bind_ok, Tx.modify_ok, Exec.ok.injEq,
    RawOrigin.ensureSigned_eq_ok, RawOrigin.signed.injEq, exists_eq_left'] at h
  obtain ⟨D, hD, -, hs₁'⟩ := h
  have hactive : { D with status := .active } = D := by rw [← (hs.delegators a D hD).status]
  rw [hactive] at hs₁'
  generalize hall : rescheduleAll s a _ _ _ = all at hs₁'
  obtain ⟨D', updated, n⟩ := all
  have hbonds : ∀ x ∈ D.delegations, x ∈ s.delegationsOf a := by
    intro x hx
    rw [delegationsOf_eq hD]
    exact hx
  obtain ⟨-, hrewritten, l, rfl, -⟩ := rescheduleAll_fits hs hbonds hall
  have hlists := rescheduleAll_lists hs hbonds hall
  obtain ⟨requests, hset, hcases⟩ := setAllRequests_eq (s := s) updated
  dsimp only at hs₁'
  rw [hset] at hs₁'
  subst hs₁'
  refine ⟨rfl, rfl, ?_⟩
  intro round world
  have hbooks := later_books hs₁ round world
  have hlive : ∀ x ∈ D.delegations, ∃ r ∈ requests x.owner,
      r.delegator = a ∧ r.action.isRevoke = true := by
    intro x hx
    apply hrevokes
    rw [delegationsOf_eq (get_insert_self _ _ _)]
    exact hx
  have hrun := cancelLeaveDelegators_run hbooks (get_insert_self s.delegatorState a _) hlive
  refine ⟨_, hrun, ?_⟩
  have hr' := (cancelLeaveDelegators_effect hbooks hrun).reckoned hbooks hr₁
  have hdropped : ∀ c, dropRequest a (requests c) =
      dropRequest a (s.delegationScheduledRequests c) := by
    intro c
    rcases hcases c with ⟨hkeep, -⟩ | ⟨x, hx, rfl, hrequests⟩
    · rw [hkeep]
    · obtain ⟨r, hra, hlist⟩ := hlists x hx
      have hnone := fun q => ne_of_mem_dropRequest (r := q) (d := a) (hs.requests x.1).distinct
      rw [hrequests, hlist, dropRequest_append hnone hra]
  constructor
  · intro hsame c
    have hlist := congrArg (fun t : State R => t.delegationScheduledRequests c) hsame
    exact (dropRequest_eq_self_iff (hs.requests c).distinct).mp ((hdropped c).symm.trans hlist)
  · intro hnone
    apply Reckons.back (D := D) hr hD hr'
    exact funext fun c => (hdropped c).trans (dropRequest_of_none (hnone c))

end Single

end Requests

section Calls
variable {s s₁ : State R} {a : R.Account} {call cancel : Call R} {u : PUnit}

theorem TakesBack.takenBack (h : TakesBack call cancel)
    (hpool : PoolExact s.candidatePool s.candidateInfo) (hs : Books s) (hs₁ : Books s₁)
    (hr : Reckoned s) (hr₁ : Reckoned s₁) (hrun : call.dispatch (.signed a) s = (.ok u, s₁)) :
    TakenBack (cancel.dispatch (.signed a)) s s₁ (PutsBack s a call) := by
  cases h with
  | goOnline => exact goOffline_back hpool hrun
  | cancelLeaveCandidates hnk => exact scheduleLeaveCandidates_back hpool hnk hrun
  | cancelCandidateBondLess => exact scheduleCandidateBondLess_back hrun
  | cancelRevoke => exact scheduleRevokeDelegation_back hs₁ hr hr₁ hrun
  | cancelDecrease => exact scheduleDelegatorBondLess_back hs₁ hr hr₁ hrun
  | cancelLeaveDelegators => exact scheduleLeaveDelegators_back hs₁ hr hr₁ hs hrun

variable (hR : R.Placed) (hfree : ∀ w a, R.freeBalance w a ≤ maxBalance)
include hR hfree

end Calls

section Witness
open Staking.Sample

/-- A round goes by, and account 3 gets a lock. -/
def lull : List (Move (runtime 1)) :=
  [.block 10, .other (setLock (after spread).world .delegator (3 : ℕ) (some 7))]

end Witness

end Staking
end ZkNft
