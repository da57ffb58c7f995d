import ZkNft.Staking.Effects

/-! The calls of delegators: what they do to the requests, and the rest of their effects. -/

namespace ZkNft
namespace Staking
open Keyed StorageMap

variable {R : Runtime}

section Fit
variable {c d : R.Account} {a : ℕ} {requests requests' : List (ScheduledRequest R.Account)}
  {delegationsOf : R.Account → List (Bond R.Account)}

theorem RequestsFit.sublist (h : RequestsFit c requests delegationsOf)
    (hs : requests'.Sublist requests) : RequestsFit c requests' delegationsOf :=
  ⟨h.distinct.sublist hs, fun r hr => h.live r (hs.subset hr)⟩

theorem RequestsFit.append (h : RequestsFit c requests delegationsOf)
    {r : ScheduledRequest R.Account} (hne : ∀ q ∈ requests, q.delegator ≠ r.delegator)
    (hr : ∃ a, ⟨c, a⟩ ∈ delegationsOf r.delegator ∧ ∀ b, r.action = .revoke b → b = a) :
    RequestsFit c (requests ++ [r]) delegationsOf := by
  constructor
  · unfold Distinct
    rw [List.map_append, List.nodup_append]
    refine ⟨h.distinct, List.nodup_singleton _, ?_⟩
    intro k hk k' hk'
    obtain ⟨q, hq, rfl⟩ := List.mem_map.mp hk
    rw [List.mem_singleton.mp hk']
    exact hne q hq
  · intro q hq
    rcases List.mem_append.mp hq with hq | hq
    · exact h.live q hq
    · rw [List.mem_singleton.mp hq]
      exact hr

theorem not_hasRequest (h : hasRequest requests d = false) : ∀ r ∈ requests, r.delegator ≠ d := by
  intro r hr
  simpa using List.any_eq_false.mp h r hr

/-- A request that is taken is one of the delegator, and the others are left. -/
theorem takeRequest_eq_some {request : ScheduledRequest R.Account}
    {rest : List (ScheduledRequest R.Account)} (h : takeRequest d requests = some (request, rest)) :
    request ∈ requests ∧ request.delegator = d ∧ rest = dropRequest d requests := by
  unfold takeRequest at h
  obtain ⟨r, hr, heq⟩ := Option.map_eq_some_iff.mp h
  obtain ⟨rfl, rfl⟩ := Prod.mk.inj heq
  exact ⟨List.mem_of_find?_eq_some hr, by simpa using List.find?_some hr, rfl⟩

theorem requestedBy_of_take {request : ScheduledRequest R.Account}
    {rest : List (ScheduledRequest R.Account)} (h : takeRequest d requests = some (request, rest)) :
    requestedBy d requests = request.action.amount := by
  unfold takeRequest at h
  obtain ⟨r, hr, heq⟩ := Option.map_eq_some_iff.mp h
  obtain ⟨rfl, -⟩ := Prod.mk.inj heq
  rw [requestedBy, hr]
  rfl

theorem takeRequest_eq_none (h : takeRequest d requests = none) :
    ∀ r ∈ requests, r.delegator ≠ d := by
  intro r hr
  simpa using List.find?_eq_none.mp (Option.map_eq_none_iff.mp h) r hr

theorem cancelRequestWithState_eq_some {request : ScheduledRequest R.Account}
    {state state' : Delegator R.Account} {rest : List (ScheduledRequest R.Account)}
    (h : cancelRequestWithState d state requests = some (request, state', rest)) :
    request ∈ requests ∧ request.delegator = d ∧ rest = dropRequest d requests ∧
      state' = { state with lessTotal := state.lessTotal - requestedBy d requests } := by
  unfold cancelRequestWithState at h
  obtain ⟨⟨r, rs⟩, hr, heq⟩ := Option.map_eq_some_iff.mp h
  simp only [Prod.mk.injEq] at heq
  obtain ⟨rfl, rfl, rfl⟩ := heq
  have ⟨hmem, hd, hrest⟩ := takeRequest_eq_some hr
  rw [requestedBy_of_take hr]
  exact ⟨hmem, hd, hrest, rfl⟩

theorem cancelRequestWithState_eq_none {state : Delegator R.Account}
    (h : cancelRequestWithState d state requests = none) : ∀ r ∈ requests, r.delegator ≠ d :=
  takeRequest_eq_none (Option.map_eq_none_iff.mp h)

end Fit

section SetAll
variable {s : State R} {c : R.Account}

theorem setRequests_self {requests : List (ScheduledRequest R.Account)} :
    (s.setRequests c requests).delegationScheduledRequests c = requests := if_pos rfl

theorem setRequests_other {requests : List (ScheduledRequest R.Account)} {b : R.Account}
    (h : b ≠ c) : (s.setRequests c requests).delegationScheduledRequests b =
      s.delegationScheduledRequests b := if_neg h

/-- The requests of one candidate are set, and they still fit. -/
theorem fits_setRequests {requests : List (ScheduledRequest R.Account)}
    (h : ∀ c, RequestsFit c (s.delegationScheduledRequests c) s.delegationsOf)
    (hc : RequestsFit c requests s.delegationsOf) (b : R.Account) :
    RequestsFit b ((s.setRequests c requests).delegationScheduledRequests b) s.delegationsOf := by
  by_cases hb : b = c
  · rw [hb, setRequests_self]
    exact hc
  · rw [setRequests_other hb]
    exact h b

theorem setAllRequests_eq (updated : List (R.Account × List (ScheduledRequest R.Account))) :
    ∃ requests, s.setAllRequests updated = { s with delegationScheduledRequests := requests } ∧
      ∀ c, (requests c = s.delegationScheduledRequests c ∧ ∀ x ∈ updated, x.1 ≠ c) ∨
        ∃ x ∈ updated, x.1 = c ∧ requests c = x.2 := by
  unfold State.setAllRequests
  induction updated generalizing s with
  | nil => exact ⟨s.delegationScheduledRequests, rfl, by simp⟩
  | cons x updated ih =>
    obtain ⟨requests, hset, hall⟩ := ih (s := s.setRequests x.1 x.2)
    refine ⟨requests, hset, ?_⟩
    intro c
    rcases hall c with ⟨hkeep, hne⟩ | ⟨y, hy, hyc, hreq⟩
    · by_cases hc : x.1 = c
      · refine .inr ⟨x, List.mem_cons_self, hc, ?_⟩
        rw [hkeep, ← hc]
        exact setRequests_self
      · refine .inl ⟨?_, List.forall_mem_cons.mpr ⟨hc, hne⟩⟩
        rw [hkeep]
        exact setRequests_other fun h => hc h.symm
    · exact .inr ⟨y, List.mem_cons_of_mem x hy, hyc, hreq⟩

end SetAll

section Reckoned
variable {s : State R} {c d : R.Account} {a : ℕ} {D D' : Delegator R.Account} (hs : Books s)
  (h : Reckoned s) (hD : s.delegatorState.get d = some D)
include hs h hD

/-- A request is for no more than the delegation. -/
theorem requestedBy_le_amount {x : Bond R.Account} (hx : x ∈ D.delegations) :
    requestedBy d (s.delegationScheduledRequests x.owner) ≤ x.amount := by
  unfold requestedBy
  cases hfind : (s.delegationScheduledRequests x.owner).find? fun r => r.delegator = d with
  | none => exact Nat.zero_le _
  | some r =>
    have hr := List.mem_of_find?_eq_some hfind
    have hrd : r.delegator = d := by simpa using List.find?_some hfind
    obtain ⟨b, hlive, hrevoke⟩ := (hs.requests x.owner).live r hr
    rw [hrd, delegationsOf_eq hD] at hlive
    have hamount : b = x.amount :=
      congrArg Bond.amount ((hs.delegators d D hD).ordered.oneEach.eq_of_key hlive hx rfl)
    rw [Option.elim_some]
    cases haction : r.action with
    | revoke n =>
      rw [hrevoke n haction, hamount]
      exact Nat.le_refl _
    | decrease less =>
      rw [← hamount]
      exact Nat.le_of_lt (h.decrease x.owner r hr D b less (hrd ▸ hD) hlive haction)

/-- A new request, for no more than the delegation. -/
theorem Reckoned.schedule {r : ScheduledRequest R.Account} (hmem : ⟨c, a⟩ ∈ D.delegations)
    (hfresh : ∀ q ∈ s.delegationScheduledRequests c, q.delegator ≠ d) (hr : r.delegator = d)
    (hle : r.action.amount ≤ a) (hdecrease : ∀ less, r.action = .decrease less → less < a)
    (hbonds : D'.delegations = D.delegations)
    (hless : D'.lessTotal = satAdd D.lessTotal r.action.amount) :
    Reckons (s.delegatorState.insert d D') (s.setRequests c
      (s.delegationScheduledRequests c ++ [r])).delegationScheduledRequests := by
  have hok := hs.delegators d D hD
  have hone := hok.ordered.oneEach
  have hself : requestedBy d (s.delegationScheduledRequests c ++ [r]) = r.action.amount := by
    rw [← hr] at hfresh ⊢
    exact requestedBy_append_self hfresh
  have hbound : ∀ x ∈ D.delegations, requestedBy d ((s.setRequests c
      (s.delegationScheduledRequests c ++ [r])).delegationScheduledRequests x.owner) ≤
      x.amount := by
    intro x hx
    by_cases hxc : x.owner = c
    · have hamount := congrArg Bond.amount (hone.eq_of_key hx hmem hxc)
      rw [hxc, setRequests_self, hself, hamount]
      exact hle
    · rw [setRequests_other hxc]
      exact requestedBy_le_amount hs h hD hx
  have hchange := requested_change (d := d)
    (s.setRequests c (s.delegationScheduledRequests c ++ [r])).delegationScheduledRequests hone
    hmem fun b hb => setRequests_other hb
  have htotal := requested_le hbound
  rw [setRequests_self, hself, requestedBy_none hfresh, ← h.less d D hD] at hchange
  have hsum := hok.total
  have hmax := hok.total_le
  refine h.rerequest hD hbonds ?_ ?_ ?_
  · rw [hless, satAdd_eq (by omega)]
    omega
  · intro b e he
    by_cases hb : b = c
    · rw [hb, setRequests_self]
      exact requestedBy_append_other (hr ▸ he.symm)
    · rw [setRequests_other hb]
  · intro b q hq
    by_cases hb : b = c
    · rw [hb, setRequests_self] at hq
      rw [hb]
      rcases List.mem_append.mp hq with hq | hq
      · exact .inl hq
      · obtain rfl := List.mem_singleton.mp hq
        refine .inr ⟨hr, ?_⟩
        intro n less hn haction
        have hamount : n = a := congrArg Bond.amount (hone.eq_of_key hn hmem rfl)
        rw [hamount]
        exact hdecrease less haction
    · rw [setRequests_other hb] at hq
      exact .inl hq

/-- The request of a delegator is taken out. -/
theorem Reckoned.cancel (hmem : ⟨c, a⟩ ∈ D.delegations) (hbonds : D'.delegations = D.delegations)
    (hless : D'.lessTotal = D.lessTotal - requestedBy d (s.delegationScheduledRequests c)) :
    Reckons (s.delegatorState.insert d D') (s.setRequests c
      (dropRequest d (s.delegationScheduledRequests c))).delegationScheduledRequests := by
  have hok := hs.delegators d D hD
  have hchange := requested_change (d := d)
    (s.setRequests c (dropRequest d
      (s.delegationScheduledRequests c))).delegationScheduledRequests hok.ordered.oneEach
    hmem fun b hb => setRequests_other hb
  rw [setRequests_self, requestedBy_drop_self (hs.requests c).distinct, ← h.less d D hD]
    at hchange
  refine h.rerequest hD hbonds ?_ ?_ ?_
  · rw [hless]
    omega
  · intro b e he
    by_cases hb : b = c
    · rw [hb, setRequests_self]
      exact requestedBy_drop_other he
    · rw [setRequests_other hb]
  · intro b q hq
    by_cases hb : b = c
    · rw [hb, setRequests_self] at hq
      rw [hb]
      exact .inl (dropRequest_sublist.subset hq)
    · rw [setRequests_other hb] at hq
      exact .inl hq

end Reckoned

/-- The new lists `updated` of the candidates of `bonds`, in which `d` requests `f` of each bond. -/
structure Rewritten (s : State R) (d : R.Account) (f : Bond R.Account → ℕ)
    (bonds : List (Bond R.Account))
    (updated : List (R.Account × List (ScheduledRequest R.Account))) : Prop where
  owners : ∀ bond ∈ bonds, ∃ x ∈ updated, x.1 = bond.owner
  own : ∀ x ∈ updated, ∃ bond ∈ bonds, x.1 = bond.owner ∧ requestedBy d x.2 = f bond
  other : ∀ x ∈ updated, ∀ e, e ≠ d →
    requestedBy e x.2 = requestedBy e (s.delegationScheduledRequests x.1)
  mem : ∀ x ∈ updated, ∀ r ∈ x.2, r ∈ s.delegationScheduledRequests x.1 ∨
    r.delegator = d ∧ ∀ less, r.action ≠ .decrease less

namespace Rewritten
variable {s : State R} {d : R.Account} {f : Bond R.Account → ℕ} {bonds : List (Bond R.Account)}
  {updated : List (R.Account × List (ScheduledRequest R.Account))} {D D' : Delegator R.Account}

theorem nil : Rewritten s d f [] [] := by
  constructor
  all_goals
    intro x hx
    cases hx

theorem cons {bond : Bond R.Account} {requests : List (ScheduledRequest R.Account)}
    (h : Rewritten s d f bonds updated) (hown : requestedBy d requests = f bond)
    (hother : ∀ e, e ≠ d →
      requestedBy e requests = requestedBy e (s.delegationScheduledRequests bond.owner))
    (hmem : ∀ r ∈ requests, r ∈ s.delegationScheduledRequests bond.owner ∨
      r.delegator = d ∧ ∀ less, r.action ≠ .decrease less) :
    Rewritten s d f (bond :: bonds) ((bond.owner, requests) :: updated) := by
  refine ⟨?_, ?_, List.forall_mem_cons.mpr ⟨hother, h.other⟩,
    List.forall_mem_cons.mpr ⟨hmem, h.mem⟩⟩
  · refine List.forall_mem_cons.mpr ⟨⟨_, List.mem_cons_self, rfl⟩, ?_⟩
    intro b hb
    obtain ⟨x, hx, hxb⟩ := h.owners b hb
    exact ⟨x, List.mem_cons_of_mem _ hx, hxb⟩
  · refine List.forall_mem_cons.mpr ⟨⟨bond, List.mem_cons_self, rfl, hown⟩, ?_⟩
    intro x hx
    obtain ⟨b, hb, hxb⟩ := h.own x hx
    exact ⟨b, List.mem_cons_of_mem _ hb, hxb⟩

/-- What the delegator counts is what it requests in the new lists. -/
theorem reckons (h : Rewritten s d f D.delegations updated) (hs : Books s) (hr : Reckoned s)
    (hD : s.delegatorState.get d = some D) (hless : D'.lessTotal = (D.delegations.map f).sum)
    (hbonds : D'.delegations = D.delegations)
    {requests : R.Account → List (ScheduledRequest R.Account)}
    (hall : ∀ c, (requests c = s.delegationScheduledRequests c ∧ ∀ x ∈ updated, x.1 ≠ c) ∨
      ∃ x ∈ updated, x.1 = c ∧ requests c = x.2) :
    Reckons (s.delegatorState.insert d D') requests := by
  have hone := (hs.delegators d D hD).ordered.oneEach
  refine hr.rerequest hD hbonds ?_ ?_ ?_
  · rw [hless, requested]
    congr 1
    apply List.map_congr_left
    intro bond hbond
    rcases hall bond.owner with ⟨_, hnone⟩ | ⟨x, hx, hxb, hrequests⟩
    · obtain ⟨x, hx, hxb⟩ := h.owners bond hbond
      exact absurd hxb (hnone x hx)
    · obtain ⟨b, hb, hxb', hown⟩ := h.own x hx
      have hsame : b = bond := hone.eq_of_key hb hbond (hxb'.symm.trans hxb)
      rw [hrequests, hown, hsame]
  · intro c e he
    rcases hall c with ⟨hkeep, _⟩ | ⟨x, hx, rfl, hrequests⟩
    · rw [hkeep]
    · rw [hrequests]
      exact h.other x hx e he
  · intro c r hrc
    rcases hall c with ⟨hkeep, _⟩ | ⟨x, hx, rfl, hrequests⟩
    · rw [hkeep] at hrc
      exact .inl hrc
    · rw [hrequests] at hrc
      rcases h.mem x hx r hrc with hold | ⟨hrd, hnot⟩
      · exact .inl hold
      · exact .inr ⟨hrd, fun a less _ haction => absurd haction (hnot less)⟩

end Rewritten


section Schedule
variable {s s' : State R} {u : PUnit} {origin : Origin R} (hs : Books s)
include hs

theorem scheduleRevokeDelegation_effect {c : R.Account}
    (h : scheduleRevokeDelegation origin c s = (.ok u, s')) : Effect s s' := by
  simp only [scheduleRevokeDelegation, delegationScheduleRevoke, Tx.transactional_run_ok,
    Tx.read_bind_ok, getOr_bind_ok, readRequests, ensure_bind_ok, currentRound, scheduleRequest,
    Tx.modify_ok, Exec.ok.injEq, exists_eq_left'] at h
  obtain ⟨d, _, D, hD, hnone, a, hbond, rfl⟩ := h
  have hbonds := (getBondAmount_eq_some (hs.delegators d D hD).ordered.oneEach).mp hbond
  have hmem : ⟨c, a⟩ ∈ s.delegationsOf d := by
    rw [delegationsOf_eq hD]
    exact hbonds
  have hfresh := not_hasRequest (by simpa using hnone)
  have hactive := (hs.delegators d D hD).status
  have hfits := fits_setRequests hs.requests ((hs.requests c).append
    (r := ⟨d, satAddRounds s.round.current R.revokeDelegationDelay, .revoke a⟩) hfresh
    ⟨a, hmem, fun b hb => (DelegationAction.revoke.inj hb).symm⟩)
  have heffect := Effect.rerequest (satAdd D.lessTotal a) hD hfits
  rw [← hactive] at heffect
  apply heffect
  intro hreckoned
  refine hreckoned.schedule hs hD hbonds hfresh rfl (Nat.le_refl a) ?_ rfl rfl
  intro less heq
  cases heq

/-- A request that is scheduled keeps the lists of requests in order. -/
theorem scheduleDelegatorBondLess_effect {c : R.Account} {less : ℕ}
    (h : scheduleDelegatorBondLess origin c less s = (.ok u, s')) : Effect s s' := by
  simp only [scheduleDelegatorBondLess, delegationScheduleBondDecrease, Tx.transactional_run_ok,
    Tx.read_bind_ok, getOr_bind_ok, readRequests, ensure_bind_ok, currentRound, scheduleRequest,
    Tx.modify_ok, Exec.ok.injEq, exists_eq_left'] at h
  obtain ⟨d, _, D, hD, hnone, a, hbond, hless, _, _, rfl⟩ := h
  have hless := of_decide_eq_true hless
  have hbonds := (getBondAmount_eq_some (hs.delegators d D hD).ordered.oneEach).mp hbond
  have hmem : ⟨c, a⟩ ∈ s.delegationsOf d := by
    rw [delegationsOf_eq hD]
    exact hbonds
  have hfresh := not_hasRequest (by simpa using hnone)
  have hactive := (hs.delegators d D hD).status
  have hdecrease : ∀ b, DelegationAction.decrease less = .revoke b → b = a := by
    intro b hb
    cases hb
  have hfits := fits_setRequests hs.requests ((hs.requests c).append
    (r := ⟨d, satAddRounds s.round.current R.revokeDelegationDelay, .decrease less⟩) hfresh
    ⟨a, hmem, hdecrease⟩)
  have heffect := Effect.rerequest (satAdd D.lessTotal less) hD hfits
  rw [← hactive] at heffect
  apply heffect
  intro hreckoned
  have hlower : ∀ b, DelegationAction.decrease less = .decrease b → b < a := by
    intro b hb
    rw [← DelegationAction.decrease.inj hb]
    exact hless
  exact hreckoned.schedule hs hD hbonds hfresh rfl (Nat.le_of_lt hless) hlower rfl rfl

theorem cancelDelegationRequest_effect {c : R.Account}
    (h : cancelDelegationRequest origin c s = (.ok u, s')) : Effect s s' := by
  simp only [cancelDelegationRequest, delegationCancelRequest, Tx.transactional_run_ok,
    Tx.read_bind_ok, getOr_bind_ok, readRequests, Tx.modify_ok, Exec.ok.injEq,
    exists_eq_left'] at h
  obtain ⟨d, _, D, hD, ⟨request, D', rest⟩, hcancel, rfl⟩ := h
  have hactive := (hs.delegators d D hD).status
  obtain ⟨hmem, hd, rfl, rfl⟩ := cancelRequestWithState_eq_some hcancel
  have hfits := fits_setRequests hs.requests
    ((hs.requests c).sublist (dropRequest_sublist (d := d)))
  have heffect := Effect.rerequest
    (D.lessTotal - requestedBy d (s.delegationScheduledRequests c)) hD hfits
  rw [← hactive] at heffect
  apply heffect
  intro hreckoned
  obtain ⟨a, hlive, -⟩ := (hs.requests c).live request hmem
  rw [hd, delegationsOf_eq hD] at hlive
  exact hreckoned.cancel hs hD hlive rfl rfl

/-- A list of requests after a delegation is to be revoked. -/
theorem rescheduleRevoke_fits {d : R.Account} {when : ℕ} {D D' : Delegator R.Account}
    {bond : Bond R.Account} {requests : List (ScheduledRequest R.Account)} {existing : Bool}
    (hx : bond ∈ s.delegationsOf d)
    (h : rescheduleRevoke s d when D bond = (D', requests, existing)) :
    RequestsFit bond.owner requests s.delegationsOf ∧
      D' = { D with
        lessTotal := satAdd (D.lessTotal - requestedBy d
          (s.delegationScheduledRequests bond.owner)) bond.amount } ∧
      ∃ r : ScheduledRequest R.Account, r.delegator = d ∧ r.action = .revoke bond.amount ∧
        requests = dropRequest d (s.delegationScheduledRequests bond.owner) ++ [r] := by
  have hall := hs.requests bond.owner
  unfold rescheduleRevoke at h
  simp only at h
  split at h
  · rename_i request D₁ rest hcancel
    obtain ⟨hmem, hd, rfl, rfl⟩ := cancelRequestWithState_eq_some hcancel
    have hrest := hall.sublist (dropRequest_sublist (d := d))
    have hne : ∀ r ∈ dropRequest d (s.delegationScheduledRequests bond.owner), r.delegator ≠ d :=
      fun r hr => ne_of_mem_dropRequest hall.distinct hr
    split_ifs at h with hrevoke
    · simp only [Prod.mk.injEq] at h
      obtain ⟨rfl, rfl, -⟩ := h
      obtain ⟨a, hlive, hamount⟩ := hall.live request hmem
      have hsame : request.action = .revoke bond.amount := by
        obtain ⟨D₀, hD₀, hbond⟩ := delegator_of_mem hx
        rw [hd, delegationsOf_eq hD₀] at hlive
        have hone := (hs.delegators d D₀ hD₀).ordered.oneEach
        have ha : a = bond.amount := congrArg Bond.amount (hone.eq_of_key hlive hbond rfl)
        cases haction : request.action with
        | revoke b => rw [hamount b haction, ha]
        | decrease less =>
          rw [haction] at hrevoke
          cases hrevoke
      exact ⟨hrest.append (hd ▸ hne) (hall.live request hmem), rfl, request, hd, hsame, rfl⟩
    · simp only [Prod.mk.injEq] at h
      obtain ⟨rfl, rfl, -⟩ := h
      exact ⟨hrest.append hne ⟨_, hx, fun b hb => (DelegationAction.revoke.inj hb).symm⟩, rfl,
        _, rfl, rfl, rfl⟩
  · rename_i hcancel
    have hne := cancelRequestWithState_eq_none hcancel
    have hkeep : dropRequest d (s.delegationScheduledRequests bond.owner) =
        s.delegationScheduledRequests bond.owner :=
      List.eraseP_of_forall_not fun r hr => by simpa using hne r hr
    simp only [Prod.mk.injEq] at h
    obtain ⟨rfl, rfl, -⟩ := h
    rw [requestedBy_none hne, hkeep]
    exact ⟨hall.append hne ⟨_, hx, fun b hb => (DelegationAction.revoke.inj hb).symm⟩, rfl,
      _, rfl, rfl, rfl⟩

theorem rescheduleAll_fits {d : R.Account} {when n : ℕ} {D D' : Delegator R.Account}
    {bonds : List (Bond R.Account)}
    {updated : List (R.Account × List (ScheduledRequest R.Account))}
    (hbonds : ∀ x ∈ bonds, x ∈ s.delegationsOf d)
    (h : rescheduleAll s d when D bonds = (D', updated, n)) :
    (∀ x ∈ updated, RequestsFit x.1 x.2 s.delegationsOf) ∧
      Rewritten s d Bond.amount bonds updated ∧
      ∃ l, D' = { D with lessTotal := l } ∧ ∀ k, k + amounts bonds ≤ maxBalance →
        D.lessTotal = k + requested s.delegationScheduledRequests d bonds → Reckoned s →
        l = k + amounts bonds := by
  induction bonds generalizing D D' updated n with
  | nil =>
    simp only [rescheduleAll, Prod.mk.injEq] at h
    obtain ⟨rfl, rfl, -⟩ := h
    exact ⟨by simp, .nil, D.lessTotal, rfl, fun k _ hk _ => hk⟩
  | cons x bonds ih =>
    have ⟨hx, hrest⟩ := List.forall_mem_cons.mp hbonds
    rw [rescheduleAll] at h
    generalize hone : rescheduleRevoke s d when D x = one at h
    obtain ⟨D₁, requests, existing⟩ := one
    generalize hall : rescheduleAll s d when D₁ bonds = all at h
    obtain ⟨D₂, updated₂, n₂⟩ := all
    simp only [hall, Prod.mk.injEq] at h
    obtain ⟨rfl, rfl, -⟩ := h
    obtain ⟨hfit, rfl, r, hrd, haction, rfl⟩ := rescheduleRevoke_fits hs hx hone
    obtain ⟨hfits, hrewritten, l, rfl, hl⟩ := ih hrest hall
    have hdrop : ∀ q ∈ dropRequest d (s.delegationScheduledRequests x.owner),
        q.delegator ≠ r.delegator := by
      intro q hq
      rw [hrd]
      exact ne_of_mem_dropRequest (hs.requests x.owner).distinct hq
    refine ⟨List.forall_mem_cons.mpr ⟨hfit, hfits⟩, ?_, l, rfl, ?_⟩
    · apply hrewritten.cons
      · rw [← hrd, requestedBy_append_self (hrd ▸ hdrop), haction]
        rfl
      · intro e he
        rw [requestedBy_append_other (hrd ▸ he.symm), requestedBy_drop_other he]
      · intro q hq
        rcases List.mem_append.mp hq with hq | hq
        · exact .inl (dropRequest_sublist.subset hq)
        · obtain rfl := List.mem_singleton.mp hq
          refine .inr ⟨hrd, ?_⟩
          intro less hless
          rw [haction] at hless
          cases hless
    · intro k hmax hk hreckoned
      obtain ⟨D₀, hD₀, hmem⟩ := delegator_of_mem hx
      have hle := requestedBy_le_amount hs hreckoned hD₀ hmem
      have hbound : requested s.delegationScheduledRequests d bonds ≤ amounts bonds := by
        apply requested_le
        intro y hy
        obtain ⟨D₁, hD₁, hy'⟩ := delegator_of_mem (hrest y hy)
        exact requestedBy_le_amount hs hreckoned hD₁ hy'
      rw [amounts_cons] at hmax ⊢
      rw [requested_cons] at hk
      have hadd := hl (k + x.amount) (by omega) ?_ hreckoned
      · omega
      · show satAdd (D.lessTotal - requestedBy d _) x.amount = _
        rw [satAdd_eq (by omega)]
        omega

/-- New lists of some candidates that fit leave all lists fit. -/
theorem fits_setAllRequests {updated : List (R.Account × List (ScheduledRequest R.Account))}
    (hfits : ∀ x ∈ updated, RequestsFit x.1 x.2 s.delegationsOf) :
    ∃ requests, s.setAllRequests updated = { s with delegationScheduledRequests := requests } ∧
      (∀ c, (requests c = s.delegationScheduledRequests c ∧ ∀ x ∈ updated, x.1 ≠ c) ∨
        ∃ x ∈ updated, x.1 = c ∧ requests c = x.2) ∧
      ∀ c, RequestsFit c (requests c) s.delegationsOf := by
  obtain ⟨requests, hset, hall⟩ := setAllRequests_eq (s := s) updated
  refine ⟨requests, hset, hall, ?_⟩
  intro c
  rcases hall c with ⟨hkeep, _⟩ | ⟨x, hx, rfl, hreq⟩
  · rw [hkeep]
    exact hs.requests c
  · rw [hreq]
    exact hfits x hx

theorem scheduleLeaveDelegators_effect (h : scheduleLeaveDelegators origin s = (.ok u, s')) :
    Effect s s' := by
  simp only [scheduleLeaveDelegators, delegatorScheduleRevokeAll, Tx.transactional_run_ok,
    Tx.read_bind_ok, getOr_bind_ok, currentRound, ensure_bind_ok, Tx.modify_ok, Exec.ok.injEq,
    exists_eq_left'] at h
  obtain ⟨d, _, D, hD, -, rfl⟩ := h
  generalize hall : rescheduleAll s d _ _ _ = all
  obtain ⟨D', updated, n⟩ := all
  have hbonds : ∀ x ∈ D.delegations, x ∈ s.delegationsOf d := by
    intro x hx
    rw [delegationsOf_eq hD]
    exact hx
  obtain ⟨hfits, hrewritten, l, rfl, hl⟩ := rescheduleAll_fits hs hbonds hall
  obtain ⟨requests, hset, hcases, hrequests⟩ := fits_setAllRequests hs hfits
  rw [hset]
  apply Effect.rerequest (D := D) l hD hrequests
  intro hreckoned
  have hok := hs.delegators d D hD
  have hmax := hok.total_le
  rw [hok.total] at hmax
  have hless := hl 0 (by omega) (by rw [hreckoned.less d D hD, Nat.zero_add]) hreckoned
  rw [Nat.zero_add] at hless
  apply hrewritten.reckons hs hreckoned hD _ _ hcases
  · exact hless
  · rfl

theorem cancelAll_fits {d : R.Account} {D D' : Delegator R.Account}
    {bonds : List (Bond R.Account)}
    {updated : List (R.Account × List (ScheduledRequest R.Account))}
    (h : cancelAll s d D bonds = (D', updated)) :
    (∀ x ∈ updated, RequestsFit x.1 x.2 s.delegationsOf) ∧
      Rewritten s d (fun _ => 0) bonds updated ∧
      D' = { D with
        lessTotal := D.lessTotal - requested s.delegationScheduledRequests d bonds } := by
  induction bonds generalizing D D' updated with
  | nil =>
    simp only [cancelAll, Prod.mk.injEq] at h
    obtain ⟨rfl, rfl⟩ := h
    exact ⟨by simp, .nil, rfl⟩
  | cons x bonds ih =>
    rw [cancelAll] at h
    cases hcancel : cancelRequestWithState d D (s.delegationScheduledRequests x.owner) with
    | none =>
      have hnone := requestedBy_none (cancelRequestWithState_eq_none hcancel)
      generalize hall : cancelAll s d D bonds = all at h
      obtain ⟨D₂, updated₂⟩ := all
      simp only [hcancel, Option.elim_none, hall, Prod.mk.injEq] at h
      obtain ⟨rfl, rfl⟩ := h
      obtain ⟨hfits, hrewritten, rfl⟩ := ih hall
      refine ⟨List.forall_mem_cons.mpr ⟨hs.requests x.owner, hfits⟩,
        hrewritten.cons hnone (fun _ _ => rfl) fun _ hr => .inl hr, ?_⟩
      rw [requested_cons, hnone, Nat.zero_add]
    | some cancelled =>
      obtain ⟨request, D₁, rest⟩ := cancelled
      obtain ⟨_, _, rfl, rfl⟩ := cancelRequestWithState_eq_some hcancel
      generalize hall : cancelAll s d { D with
        lessTotal := D.lessTotal - requestedBy d (s.delegationScheduledRequests x.owner) }
        bonds = all at h
      obtain ⟨D₂, updated₂⟩ := all
      simp only [hcancel, Option.elim_some, hall, Prod.mk.injEq] at h
      obtain ⟨rfl, rfl⟩ := h
      obtain ⟨hfits, hrewritten, rfl⟩ := ih hall
      have hfit := (hs.requests x.owner).sublist (dropRequest_sublist (d := d))
      refine ⟨List.forall_mem_cons.mpr ⟨hfit, hfits⟩, ?_, ?_⟩
      · apply hrewritten.cons
        · exact requestedBy_drop_self (hs.requests x.owner).distinct
        · exact fun e he => requestedBy_drop_other he
        · exact fun r hr => .inl (dropRequest_sublist.subset hr)
      · rw [requested_cons, Nat.sub_add_eq]

theorem cancelLeaveDelegators_effect (h : cancelLeaveDelegators origin s = (.ok u, s')) :
    Effect s s' := by
  simp only [cancelLeaveDelegators, delegatorCancelScheduledRevokeAll, Tx.transactional_run_ok,
    Tx.read_bind_ok, getOr_bind_ok] at h
  obtain ⟨d, _, D, hD, h⟩ := h
  have hactive := (hs.delegators d D hD).status
  rw [hactive] at h
  simp only [ensure_bind_ok, Tx.read_bind_ok, Tx.modify_ok, Exec.ok.injEq, exists_eq_left'] at h
  obtain ⟨-, rfl⟩ := h
  generalize hall : cancelAll s d D D.delegations = all
  obtain ⟨D', updated⟩ := all
  obtain ⟨hfits, hrewritten, rfl⟩ := cancelAll_fits hs hall
  obtain ⟨requests, hset, hcases, hrequests⟩ := fits_setAllRequests hs hfits
  have heffect := Effect.rerequest
    (D.lessTotal - requested s.delegationScheduledRequests d D.delegations) hD hrequests
  rw [← hactive] at heffect
  simp only [hset]
  apply heffect
  intro hreckoned
  apply hrewritten.reckons hs hreckoned hD _ _ hcases
  · rw [hreckoned.less d D hD, Nat.sub_self]
    simp
  · rfl

end Schedule
end Staking
end ZkNft
