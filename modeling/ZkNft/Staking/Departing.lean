import ZkNft.Staking.Delays
import ZkNft.Staking.Rounds

/-! A delegator that has scheduled to leave can leave when the delay is over, whatever the others do
in the meantime. -/

namespace ZkNft
namespace Staking
open Keyed StorageMap

variable {R : Runtime}

/-- Every delegation of `d` has a revoke, which can be executed from round `deadline` on. -/
def Departing (s : State R) (d : R.Account) (deadline : ℕ) : Prop :=
  ∀ x ∈ s.delegationsOf d, ∃ r ∈ s.delegationScheduledRequests x.owner, r.delegator = d ∧
    r.action.isRevoke = true ∧ r.whenExecutable ≤ deadline

/-- The delegations of `d` that are left were there before, and none has lost its revoke. -/
structure Spares (s s' : State R) (d : R.Account) : Prop where
  owners : ∀ x ∈ s'.delegationsOf d, ∃ y ∈ s.delegationsOf d, y.owner = x.owner
  revokes : ∀ x ∈ s'.delegationsOf d, ∀ r ∈ s.delegationScheduledRequests x.owner,
    r.delegator = d → r.action.isRevoke = true → r ∈ s'.delegationScheduledRequests x.owner

/-- The delegator delegates once more, or takes a revoke back. -/
inductive Undoes (d : R.Account) : Move R → Prop where
  | delegate (c : R.Account) (a n k : ℕ) : Undoes d (.call (.signed d) (.delegate c a n k))
  | cancelLeave : Undoes d (.call (.signed d) .cancelLeaveDelegators)
  | cancelRequest (c : R.Account) : Undoes d (.call (.signed d) (.cancelDelegationRequest c))

section Spares
variable {s s₁ s' : State R} {c d e k : R.Account} {a deadline : ℕ}

theorem Departing.spared (h : Departing s d deadline) (hs : Spares s s' d) :
    Departing s' d deadline := by
  intro x hx
  obtain ⟨y, hy, hyx⟩ := hs.owners x hx
  obtain ⟨r, hr, hrd, hrevoke, hdue⟩ := h y hy
  rw [hyx] at hr
  exact ⟨r, hs.revokes x hx r hr hrd hrevoke, hrd, hrevoke, hdue⟩

theorem Spares.of_delegations (hdelegations : s'.delegationsOf d = s.delegationsOf d)
    (hrequests : ∀ c r, r ∈ s.delegationScheduledRequests c → r.delegator = d →
      r.action.isRevoke = true → r ∈ s'.delegationScheduledRequests c) : Spares s s' d := by
  constructor
  · intro x hx
    rw [hdelegations] at hx
    exact ⟨x, hx, rfl⟩
  · exact fun x _ r hr hrd hrevoke => hrequests x.owner r hr hrd hrevoke

theorem Spares.of_same (hdelegators : s'.delegatorState = s.delegatorState)
    (hrequests : s'.delegationScheduledRequests = s.delegationScheduledRequests) :
    Spares s s' d := by
  apply Spares.of_delegations
  · rw [State.delegationsOf, hdelegators]
    rfl
  · intro c r hr _ _
    rw [hrequests]
    exact hr

theorem mem_dropRequest {requests : List (ScheduledRequest R.Account)}
    {r : ScheduledRequest R.Account} (hr : r ∈ requests) (hne : r.delegator ≠ d) :
    r ∈ dropRequest d requests := by
  apply (List.mem_eraseP_of_neg _).mpr hr
  simpa using hne

/-- Another delegator is stored, or the same one with the same delegations. -/
theorem delegationsOf_stored {D : Delegator R.Account}
    (hdelegators : s'.delegatorState = s.delegatorState.insert e D)
    (hsame : d = e → D.delegations = s.delegationsOf d) :
    s'.delegationsOf d = s.delegationsOf d := by
  rw [delegationsOf_insert hdelegators]
  split_ifs with hd
  · exact hsame hd
  · rfl

theorem Drop.spares (v : Drop s c k a) : Spares s v.result d := by
  constructor
  · intro x hx
    exact ⟨x, (v.mem_delegationsOf.mp hx).1, rfl⟩
  · intro x hx r hr hrd _
    show r ∈ (s.setRequests c _).delegationScheduledRequests x.owner
    by_cases hxc : x.owner = c
    · have hdk : d ≠ k := fun hdk => (v.mem_delegationsOf.mp hx).2 ⟨hdk, hxc⟩
      rw [hxc, setRequests_self]
      rw [hxc] at hr
      exact mem_dropRequest hr (hrd ▸ hdk)
    · rw [setRequests_other hxc]
      exact hr

theorem Room.spares {bottom bottom₀ : Delegations R.Account} {o : List (Bond R.Account)}
    {less : Option ℕ} (h : Room s c bottom o bottom₀ s₁ less) : Spares s s₁ d := by
  cases h with
  | free => exact .of_same rfl rfl
  | kicked v => exact v.spares

end Spares

section Requests
variable {s s' : State R} {c d e : R.Account} {u : PUnit} {origin : Origin R}

/-- The requests for one candidate are set, and a delegator is stored with its old delegations. -/
theorem Spares.of_setRequests {D D' : Delegator R.Account}
    {requests : List (ScheduledRequest R.Account)}
    (hs' : s' = { s.setRequests c requests with
      delegatorState := s.delegatorState.insert e D' })
    (hD : s.delegatorState.get e = some D) (hsame : D'.delegations = D.delegations)
    (hkept : ∀ r ∈ s.delegationScheduledRequests c, r.delegator = d →
      r.action.isRevoke = true → r ∈ requests) : Spares s s' d := by
  subst hs'
  apply Spares.of_delegations
  · apply delegationsOf_stored rfl
    rintro rfl
    rw [delegationsOf_eq hD, hsame]
  · intro b r hr hrd hrevoke
    show r ∈ (s.setRequests c requests).delegationScheduledRequests b
    by_cases hb : b = c
    · rw [hb] at hr ⊢
      rw [setRequests_self]
      exact hkept r hr hrd hrevoke
    · rw [setRequests_other hb]
      exact hr

theorem scheduleRequest_spares {D : Delegator R.Account} {request : ScheduledRequest R.Account}
    (hD : s.delegatorState.get request.delegator = some D)
    (h : scheduleRequest c D (s.delegationScheduledRequests c) request s = (.ok u, s')) :
    Spares s s' d := by
  apply Spares.of_setRequests (Tx.modify_ok.mp h) hD rfl
  exact fun r hr _ _ => List.mem_append_left _ hr

theorem scheduleRevokeDelegation_spares
    (h : scheduleRevokeDelegation origin c s = (.ok u, s')) : Spares s s' d := by
  simp only [scheduleRevokeDelegation, delegationScheduleRevoke, currentRound, readRequests,
    Tx.transactional_run_ok, Tx.read_bind_ok, getOr_bind_ok, ensure_bind_ok, Exec.ok.injEq,
    exists_eq_left'] at h
  obtain ⟨e, -, D, hD, -, a, -, h⟩ := h
  exact scheduleRequest_spares hD h

theorem scheduleDelegatorBondLess_spares {less : ℕ}
    (h : scheduleDelegatorBondLess origin c less s = (.ok u, s')) : Spares s s' d := by
  simp only [scheduleDelegatorBondLess, delegationScheduleBondDecrease, currentRound, readRequests,
    Tx.transactional_run_ok, Tx.read_bind_ok, getOr_bind_ok, ensure_bind_ok, Exec.ok.injEq,
    exists_eq_left'] at h
  obtain ⟨e, -, D, hD, -, a, -, -, -, -, h⟩ := h
  exact scheduleRequest_spares hD h

theorem cancelDelegationRequest_spares
    (h : cancelDelegationRequest origin c s = (.ok u, s')) (hother : origin ≠ .signed d) :
    Spares s s' d := by
  simp only [cancelDelegationRequest, delegationCancelRequest, Tx.transactional_run_ok,
    Tx.read_bind_ok, getOr_bind_ok, readRequests, Tx.modify_ok, Exec.ok.injEq,
    exists_eq_left'] at h
  obtain ⟨e, hsigned, D, hD, ⟨request, D', rest⟩, hcancel, hs'⟩ := h
  obtain rfl := RawOrigin.ensureSigned_eq_ok.mp hsigned
  obtain ⟨-, -, rfl, rfl⟩ := cancelRequestWithState_eq_some hcancel
  apply Spares.of_setRequests hs' hD rfl
  rintro r hr rfl _
  apply mem_dropRequest hr
  rintro rfl
  exact hother rfl

variable (hs : Books s)
include hs

/-- Whose revoke it is, it stays in the list. -/
theorem mem_rescheduleRevoke {when : ℕ} {D D' : Delegator R.Account} {bond : Bond R.Account}
    {requests : List (ScheduledRequest R.Account)} {existing : Bool}
    {r : ScheduledRequest R.Account}
    (h : rescheduleRevoke s e when D bond = (D', requests, existing))
    (hr : r ∈ s.delegationScheduledRequests bond.owner) (hrevoke : r.action.isRevoke = true) :
    r ∈ requests := by
  unfold rescheduleRevoke at h
  dsimp only at h
  cases hcancel : cancelRequestWithState e D (s.delegationScheduledRequests bond.owner) with
  | none =>
    rw [hcancel] at h
    simp only [Prod.mk.injEq] at h
    obtain ⟨-, rfl, -⟩ := h
    exact List.mem_append_left _ hr
  | some cancelled =>
    obtain ⟨request, D₁, rest⟩ := cancelled
    obtain ⟨hmem, hd, rfl, -⟩ := cancelRequestWithState_eq_some hcancel
    rw [hcancel] at h
    dsimp only at h
    by_cases hre : r.delegator = e
    · have hsame : r = request :=
        (hs.requests bond.owner).distinct.eq_of_key hr hmem (hre.trans hd.symm)
      rw [← hsame, if_pos hrevoke] at h
      simp only [Prod.mk.injEq] at h
      obtain ⟨-, rfl, -⟩ := h
      exact List.mem_append_right _ (List.mem_singleton_self r)
    · have hrest := mem_dropRequest hr hre
      split_ifs at h
      · simp only [Prod.mk.injEq] at h
        obtain ⟨-, rfl, -⟩ := h
        exact List.mem_append_left _ hrest
      · simp only [Prod.mk.injEq] at h
        obtain ⟨-, rfl, -⟩ := h
        exact List.mem_append_left _ hrest

/-- Each new list has a revoke of the delegator, and all revokes that were there. -/
theorem rescheduleAll_revokes {when n : ℕ} {D D' : Delegator R.Account}
    {bonds : List (Bond R.Account)}
    {updated : List (R.Account × List (ScheduledRequest R.Account))}
    (hbonds : ∀ x ∈ bonds, x ∈ s.delegationsOf e)
    (h : rescheduleAll s e when D bonds = (D', updated, n)) : ∀ x ∈ updated,
      (∃ r ∈ x.2, r.delegator = e ∧ r.action.isRevoke = true) ∧
        ∀ r ∈ s.delegationScheduledRequests x.1, r.action.isRevoke = true → r ∈ x.2 := by
  induction bonds generalizing D D' updated n with
  | nil =>
    simp only [rescheduleAll, Prod.mk.injEq] at h
    obtain ⟨-, rfl, -⟩ := h
    intro x hx
    cases hx
  | cons bond bonds ih =>
    obtain ⟨hbond, hrest⟩ := List.forall_mem_cons.mp hbonds
    rw [rescheduleAll] at h
    generalize hone : rescheduleRevoke s e when D bond = one at h
    obtain ⟨D₁, requests, existing⟩ := one
    generalize hall : rescheduleAll s e when D₁ bonds = all at h
    obtain ⟨D₂, updated₂, n₂⟩ := all
    simp only [hall, Prod.mk.injEq] at h
    obtain ⟨-, rfl, -⟩ := h
    refine List.forall_mem_cons.mpr ⟨⟨?_, ?_⟩, ih hrest hall⟩
    · obtain ⟨-, -, r, hrd, haction, rfl⟩ := rescheduleRevoke_fits hs hbond hone
      refine ⟨r, List.mem_append_right _ (List.mem_singleton_self r), hrd, ?_⟩
      rw [haction]
      rfl
    · exact fun r hr hrevoke => mem_rescheduleRevoke hs hone hr hrevoke

/-- Every delegation of the signer has a revoke afterwards, and all revokes stay. -/
theorem scheduleLeaveDelegators_revokes
    (h : scheduleLeaveDelegators origin s = (.ok u, s')) : ∃ e, origin = .signed e ∧
      (∀ x ∈ s'.delegationsOf e, ∃ r ∈ s'.delegationScheduledRequests x.owner,
        r.delegator = e ∧ r.action.isRevoke = true) ∧ ∀ d, Spares s s' d := by
  simp only [scheduleLeaveDelegators, delegatorScheduleRevokeAll, Tx.transactional_run_ok,
    Tx.read_bind_ok, getOr_bind_ok, currentRound, ensure_bind_ok, Tx.modify_ok, Exec.ok.injEq,
    exists_eq_left'] at h
  obtain ⟨e, hsigned, D, hD, -, rfl⟩ := h
  generalize hall : rescheduleAll s e _ _ _ = all
  obtain ⟨D', updated, n⟩ := all
  have hbonds : ∀ x ∈ D.delegations, x ∈ s.delegationsOf e := by
    intro x hx
    rw [delegationsOf_eq hD]
    exact hx
  obtain ⟨-, hrewritten, l, rfl, -⟩ := rescheduleAll_fits hs hbonds hall
  have hrevokes := rescheduleAll_revokes hs hbonds hall
  obtain ⟨requests, hset, hcases⟩ := setAllRequests_eq (s := s) updated
  dsimp only
  rw [hset]
  have hdelegations : ∀ d, ({ s with
      delegationScheduledRequests := requests
      delegatorState := s.delegatorState.insert e { D with lessTotal := l, status := .active } } :
        State R).delegationsOf d = s.delegationsOf d := by
    intro d
    apply delegationsOf_stored rfl
    rintro rfl
    exact (delegationsOf_eq hD).symm
  refine ⟨e, RawOrigin.ensureSigned_eq_ok.mp hsigned, ?_, ?_⟩
  · intro x hx
    rw [hdelegations, delegationsOf_eq hD] at hx
    show ∃ r ∈ requests x.owner, _
    rcases hcases x.owner with ⟨-, hne⟩ | ⟨y, hy, -, hrequests⟩
    · obtain ⟨y, hy, hyx⟩ := hrewritten.owners x hx
      exact absurd hyx (hne y hy)
    · rw [hrequests]
      exact (hrevokes y hy).1
  · intro d
    apply Spares.of_delegations (hdelegations d)
    intro c r hr _ hrevoke
    show r ∈ requests c
    rcases hcases c with ⟨hkeep, -⟩ | ⟨y, hy, rfl, hrequests⟩
    · rw [hkeep]
      exact hr
    · rw [hrequests]
      exact (hrevokes y hy).2 r hr hrevoke

omit hs in
/-- The requests of the others stay. -/
theorem mem_cancelAll {D D' : Delegator R.Account} {bonds : List (Bond R.Account)}
    {updated : List (R.Account × List (ScheduledRequest R.Account))}
    (h : cancelAll s e D bonds = (D', updated)) : ∀ x ∈ updated,
      ∀ r ∈ s.delegationScheduledRequests x.1, r.delegator ≠ e → r ∈ x.2 := by
  induction bonds generalizing D D' updated with
  | nil =>
    simp only [cancelAll, Prod.mk.injEq] at h
    obtain ⟨-, rfl⟩ := h
    intro x hx
    cases hx
  | cons bond bonds ih =>
    rw [cancelAll] at h
    cases hcancel : cancelRequestWithState e D (s.delegationScheduledRequests bond.owner) with
    | none =>
      generalize hall : cancelAll s e D bonds = all at h
      obtain ⟨D₂, updated₂⟩ := all
      simp only [hcancel, Option.elim_none, hall, Prod.mk.injEq] at h
      obtain ⟨-, rfl⟩ := h
      exact List.forall_mem_cons.mpr ⟨fun _ hr _ => hr, ih hall⟩
    | some cancelled =>
      obtain ⟨request, D₁, rest⟩ := cancelled
      obtain ⟨-, -, rfl, -⟩ := cancelRequestWithState_eq_some hcancel
      generalize hall : cancelAll s e D₁ bonds = all at h
      obtain ⟨D₂, updated₂⟩ := all
      simp only [hcancel, Option.elim_some, hall, Prod.mk.injEq] at h
      obtain ⟨-, rfl⟩ := h
      exact List.forall_mem_cons.mpr ⟨fun _ hr hne => mem_dropRequest hr hne, ih hall⟩

theorem cancelLeaveDelegators_spares (h : cancelLeaveDelegators origin s = (.ok u, s'))
    (hother : origin ≠ .signed d) : Spares s s' d := by
  simp only [cancelLeaveDelegators, delegatorCancelScheduledRevokeAll, Tx.transactional_run_ok,
    Tx.read_bind_ok, getOr_bind_ok] at h
  obtain ⟨e, hsigned, D, hD, h⟩ := h
  obtain rfl := RawOrigin.ensureSigned_eq_ok.mp hsigned
  rw [(hs.delegators e D hD).status] at h
  simp only [ensure_bind_ok, Tx.read_bind_ok, Tx.modify_ok, Exec.ok.injEq, exists_eq_left'] at h
  obtain ⟨-, rfl⟩ := h
  generalize hall : cancelAll s e D D.delegations = all
  obtain ⟨D', updated⟩ := all
  obtain ⟨-, -, rfl⟩ := cancelAll_fits hs hall
  obtain ⟨requests, hset, hcases⟩ := setAllRequests_eq (s := s) updated
  dsimp only
  rw [hset]
  apply Spares.of_delegations
  · apply delegationsOf_stored rfl
    rintro rfl
    exact (delegationsOf_eq hD).symm
  · rintro c r hr rfl _
    show r ∈ requests c
    rcases hcases c with ⟨hkeep, -⟩ | ⟨y, hy, rfl, hrequests⟩
    · rw [hkeep]
      exact hr
    · rw [hrequests]
      apply mem_cancelAll hall y hy r hr
      intro hre
      exact hother (hre ▸ rfl)

end Requests

section Calls
variable {s s' : State R} {c d : R.Account} {u : PUnit} {origin : Origin R}

theorem storeRemoved_spares {m : CandidateMetadata}
    (h : storeRemoved c m s = (.ok u, s')) : Spares s s' d := by
  obtain ⟨pool, rfl⟩ := storeRemoved_eq h
  exact .of_same rfl rfl

theorem storeInserted_spares {m : CandidateMetadata}
    (h : storeInserted c m s = (.ok u, s')) : Spares s s' d := by
  obtain ⟨pool, rfl⟩ := storeInserted_eq h
  exact .of_same rfl rfl

section Lists
variable {requests requests' : List (ScheduledRequest R.Account)} {r : ScheduledRequest R.Account}
  (hone : Distinct ScheduledRequest.delegator requests) (hr : r ∈ requests)
include hone hr

theorem takeRequest_of_mem : takeRequest r.delegator requests =
    some (r, dropRequest r.delegator requests) := by
  cases htake : takeRequest r.delegator requests with
  | none => exact absurd rfl (takeRequest_eq_none htake r hr)
  | some taken =>
    obtain ⟨q, rest⟩ := taken
    obtain ⟨hq, hqr, rfl⟩ := takeRequest_eq_some htake
    rw [hone.eq_of_key hq hr hqr]

/-- If the list is shorter, and the delegator still requests as much, its request is still there. -/
theorem mem_of_requestedBy (hsub : requests'.Sublist requests) (hpos : 0 < r.action.amount)
    (hsame : requestedBy r.delegator requests' = requestedBy r.delegator requests) :
    r ∈ requests' := by
  rw [requestedBy_of_take (takeRequest_of_mem hone hr)] at hsame
  by_contra hnot
  have hnone : ∀ q ∈ requests', q.delegator ≠ r.delegator := by
    intro q hq hqr
    exact hnot (hone.eq_of_key (hsub.subset hq) hr hqr ▸ hq)
  rw [requestedBy_none hnone] at hsame
  omega

end Lists

/-- The owners stay when a delegation gets another amount. -/
theorem owners_changed {f : ℕ → ℕ} {e : R.Account} {a total l : ℕ} {D : Delegator R.Account}
    (hD : s.delegatorState.get e = some D) (hok : DelegatorOk R e D)
    (hmem : ⟨c, a⟩ ∈ D.delegations)
    (hdelegators : s'.delegatorState = s.delegatorState.insert e (D.changed c f total l)) :
    ∀ x ∈ s'.delegationsOf d, ∃ y ∈ s.delegationsOf d, y.owner = x.owner := by
  intro x hx
  rw [delegationsOf_insert hdelegators] at hx
  split_ifs at hx with hd
  · rw [hd, delegationsOf_eq hD]
    rcases (mem_changed f total l hok hmem).mp hx with rfl | ⟨hx, -⟩
    · exact ⟨_, hmem, rfl⟩
    · exact ⟨x, hx, rfl⟩
  · exact ⟨x, hx, rfl⟩

variable (hR : R.Placed) (hs : Books s)
include hs

theorem executeLeaveCandidates_spares {n : ℕ}
    (h : executeLeaveCandidates origin c n s = (.ok u, s')) : Spares s s' d := by
  obtain ⟨m, top, bottom, delegators, requests, world, hm, htop, hbottom, hreturned, rfl⟩ :=
    executeLeaveCandidates_returned hs h
  have hleft : ∀ x ∈ (s.settled delegators requests world).delegationsOf d,
      x ∈ s.delegationsOf d ∧ x.owner ≠ c := by
    intro x hx
    obtain ⟨hold, hnot⟩ := (hreturned.mem_delegationsOf d x).mp hx
    refine ⟨hold, ?_⟩
    rintro rfl
    have hto := (hs.agree x.owner d x.amount).mpr hold
    rw [delegationsTo_eq htop hbottom] at hto
    exact hnot ⟨List.mem_map.mpr ⟨_, hto, rfl⟩, rfl⟩
  constructor
  · intro x hx
    exact ⟨x, (hleft x hx).1, rfl⟩
  · intro x hx r hr _ _
    have hne := (hleft x hx).2
    show r ∈ ((s.settled delegators requests world).setRequests c []).delegationScheduledRequests _
    rw [setRequests_other hne, hreturned.requests x.owner hne]
    exact hr

include hR

theorem executeLeaveDelegators_spares {n : ℕ} {e : R.Account}
    (h : executeLeaveDelegators origin e n s = (.ok u, s')) : Spares s s' d := by
  obtain ⟨D, info, top, bottom, pool, total, requests, hD, -, hrequests, hothers, rfl⟩ :=
    executeLeaveDelegators_left hR hs h
  by_cases hd : d = e
  · have hnil : ({ s.reworked info top bottom pool total with
        delegatorState := s.delegatorState.remove e
        delegationScheduledRequests := requests
        world := R.relock s.world { D with total := D.total - D.total } } :
          State R).delegationsOf d = [] := by
      rw [State.delegationsOf, hd, get_remove_self]
      rfl
    constructor
    · intro x hx
      rw [hnil] at hx
      cases hx
    · intro x hx
      rw [hnil] at hx
      cases hx
  · apply Spares.of_delegations
    · rw [State.delegationsOf, get_remove_of_ne _ hd]
      rfl
    · rintro c r hr rfl hrevoke
      apply mem_of_requestedBy (hs.requests c).distinct hr (hrequests c).1 _ (hothers c _ hd)
      obtain ⟨a, hlive, hamount⟩ := (hs.requests c).live r hr
      obtain ⟨E, hE, hmem⟩ := delegator_of_mem hlive
      have hpos := (hs.delegators _ E hE).pos _ hmem
      cases haction : r.action with
      | revoke b =>
        rw [hamount b haction]
        exact hpos
      | decrease less =>
        rw [haction] at hrevoke
        cases hrevoke

theorem executeDelegationRequest_spares {e : R.Account}
    (h : executeDelegationRequest origin e c s = (.ok u, s')) : Spares s s' d := by
  obtain ⟨who, E, request, rest, -, hE, htake, -, ⟨a, haction, h⟩ | ⟨less, haction, h⟩⟩ :=
    executeDelegationRequest_ok h
  · obtain ⟨w, v, -, rfl⟩ := executeRevoke_dropped hR hs hE htake haction h
    exact ⟨v.spares.owners, v.spares.revokes⟩
  · obtain ⟨hmem, hd, rfl⟩ := takeRequest_eq_some htake
    obtain ⟨a, _, _, _, _, _, hbond, hless, hmin, hmin', -⟩ := executeDecrease_ok h
    have hbonds := (getBondAmount_eq_some (hs.delegators e E hE).ordered.oneEach).mp hbond
    obtain ⟨s₁, hrun, hdecreased⟩ := executeDecrease_run hR hs hE hbonds hless hmin hmin'
    rw [h] at hrun
    obtain rfl := (Prod.mk.inj hrun).2
    obtain ⟨w, D, hD, hmem', -, -, -, rfl⟩ := hdecreased.out
    constructor
    · exact owners_changed hD (hs.delegators e D hD) hmem' rfl
    · intro x _ r hr hrd hrevoke
      show r ∈ (s.setRequests c _).delegationScheduledRequests x.owner
      by_cases hxc : x.owner = c
      · rw [hxc] at hr ⊢
        rw [setRequests_self]
        apply mem_dropRequest hr
        rintro rfl
        rw [takeRequest_of_mem (hs.requests c).distinct hr] at htake
        obtain ⟨rfl, -⟩ := Prod.mk.inj (Option.some.inj htake)
        rw [haction] at hrevoke
        cases hrevoke
      · rw [setRequests_other hxc]
        exact hr

theorem delegatorBondMore_spares {more : ℕ} (hfree : ∀ w a, R.freeBalance w a ≤ maxBalance)
    (h : delegatorBondMore origin c more s = (.ok u, s')) : Spares s s' d := by
  obtain ⟨e, a, D, pool, w, -, hD, hmem, -, -, rfl⟩ := delegatorBondMore_increased hR hs hfree h
  exact ⟨owners_changed hD (hs.delegators e D hD) hmem rfl, fun _ _ _ hr _ _ => hr⟩

theorem delegate_spares {a n k : ℕ} (hfree : ∀ w a, R.freeBalance w a ≤ maxBalance)
    (h : delegate origin c a n k s = (.ok u, s')) (hother : origin ≠ .signed d) :
    Spares s s' d := by
  obtain ⟨e, m, m', top, bottom, less, s₁, D, rfl, hm, htop, hbottom, hadded, -, -, -, -, -, -,
    rfl⟩ := delegate_added hR hs hfree h
  obtain ⟨o, bottom₀, s₂, hroom, w, -, ⟨hdelegators, hrequests⟩, -, -⟩ :=
    hadded.rework htop hbottom hm
  have hde : d ≠ e := by
    rintro rfl
    exact hother rfl
  have hspares : Spares s s₂ d := hroom.spares
  have hdelegations : ({ s₁ with
      total := satAdd s.total (a - less.getD 0)
      candidateInfo := s.candidateInfo.insert c m'
      delegatorState := s₁.delegatorState.insert e D
      world := R.relock s₁.world D } : State R).delegationsOf d = s₂.delegationsOf d := by
    rw [State.delegationsOf, get_insert_of_ne _ _ hde, hdelegators]
    rfl
  constructor
  · intro x hx
    rw [hdelegations] at hx
    exact hspares.owners x hx
  · intro x hx r hr hrd hrevoke
    rw [hdelegations] at hx
    show r ∈ s₁.delegationScheduledRequests x.owner
    rw [hrequests]
    exact hspares.revokes x hx r hr hrd hrevoke

/-- A call that goes through takes no revoke of `d`, unless it is a call of `d` that is made for
that. -/
theorem Call.dispatch_spares {call : Call R} (hfree : ∀ w a, R.freeBalance w a ≤ maxBalance)
    (h : call.dispatch origin s = (.ok u, s')) (hkeeps : ¬ Undoes d (.call origin call)) :
    Spares s s' d := by
  cases call with
  | setTotalSelected =>
    obtain rfl := setTotalSelected_ok h
    exact .of_same rfl rfl
  | setBlocksPerRound =>
    obtain rfl := setBlocksPerRound_ok h
    exact .of_same rfl rfl
  | joinCandidates =>
    obtain ⟨_, _, _, -, -, -, -, -, -, rfl⟩ := joinCandidates_ok h
    exact .of_same rfl rfl
  | scheduleLeaveCandidates =>
    obtain ⟨_, _, -, -, -, hstore⟩ := scheduleLeaveCandidates_ok h
    exact storeRemoved_spares hstore
  | executeLeaveCandidates => exact executeLeaveCandidates_spares hs h
  | cancelLeaveCandidates =>
    obtain ⟨_, _, -, -, hstore⟩ := cancelLeaveCandidates_ok h
    exact storeInserted_spares hstore
  | goOffline =>
    obtain ⟨_, _, -, -, hstore⟩ := goOffline_ok h
    exact storeRemoved_spares hstore
  | goOnline =>
    obtain ⟨_, _, -, -, hstore⟩ := goOnline_ok h
    exact storeInserted_spares hstore
  | candidateBondMore =>
    obtain ⟨_, _, _, -, -, -, rfl⟩ := candidateBondMore_ok h
    exact .of_same rfl rfl
  | scheduleCandidateBondLess =>
    obtain ⟨_, _, -, -, -, rfl⟩ := scheduleCandidateBondLess_ok h
    exact .of_same rfl rfl
  | executeCandidateBondLess =>
    obtain ⟨_, _, _, -, -, -, -, rfl⟩ := executeCandidateBondLess_ok h
    exact .of_same rfl rfl
  | cancelCandidateBondLess =>
    obtain ⟨_, _, -, rfl⟩ := cancelCandidateBondLess_ok h
    exact .of_same rfl rfl
  | delegate c a n k =>
    apply delegate_spares hR hs hfree h
    rintro rfl
    exact hkeeps (.delegate c a n k)
  | scheduleLeaveDelegators =>
    obtain ⟨_, -, -, hspares⟩ := scheduleLeaveDelegators_revokes hs h
    exact hspares d
  | executeLeaveDelegators => exact executeLeaveDelegators_spares hR hs h
  | cancelLeaveDelegators =>
    apply cancelLeaveDelegators_spares hs h
    rintro rfl
    exact hkeeps .cancelLeave
  | scheduleRevokeDelegation => exact scheduleRevokeDelegation_spares h
  | delegatorBondMore => exact delegatorBondMore_spares hR hs hfree h
  | scheduleDelegatorBondLess => exact scheduleDelegatorBondLess_spares h
  | executeDelegationRequest => exact executeDelegationRequest_spares hR hs h
  | cancelDelegationRequest c =>
    apply cancelDelegationRequest_spares h
    rintro rfl
    exact hkeeps (.cancelRequest c)

theorem Move.next_spares {m : Move R} (hfree : ∀ w a, R.freeBalance w a ≤ maxBalance)
    (hkeeps : ¬ Undoes d m) : Spares s (m.next s) d := by
  cases m with
  | call origin call =>
    show Spares s (call.dispatch origin s).2 d
    by_cases hok : ∃ u, (call.dispatch origin s).1 = .ok u
    · obtain ⟨u, hu⟩ := hok
      exact call.dispatch_spares hR hs hfree (Prod.ext hu rfl) hkeeps
    · rw [Call.dispatch_rollback fun u hu => hok ⟨u, hu⟩]
      exact .of_same rfl rfl
  | block => exact .of_same rfl rfl
  | other => exact .of_same rfl rfl

end Calls

section Rounds
variable {s : State R}

theorem Move.next_round_le (s : State R) (m : Move R) :
    s.round.current ≤ (m.next s).round.current := by
  cases m with
  | call origin call => exact Nat.le_of_eq (call.dispatch_current s).symm
  | block now =>
    show _ ≤ (if s.round.shouldUpdate now then s.round.update now else s.round).current
    split_ifs
    · exact Nat.le_succ _
    · exact Nat.le_refl _
  | other => exact Nat.le_refl _

/-- A request of a delegator can be executed after the longer of the two delays. -/
def Timely (s : State R) : Prop :=
  ∀ c, ∀ r ∈ s.delegationScheduledRequests c,
    r.whenExecutable ≤ s.round.current + max R.leaveDelegatorsDelay R.revokeDelegationDelay

theorem Timely.next (h : Timely s) (m : Move R) : Timely (m.next s) := by
  intro c r hr
  have hround := Move.next_round_le s m
  rcases Move.next_calm s m (.delegation c r) hr with hold | ⟨delay, hschedules, hafter⟩
  · have hdue := h c r hold
    omega
  · have hdue : r.whenExecutable ≤ s.round.current + delay := hafter.le
    have hdelay : delay ≤ max R.leaveDelegatorsDelay R.revokeDelegationDelay := by
      cases hschedules with
      | revoke => exact Nat.le_max_right _ _
      | decrease => exact Nat.le_max_right _ _
      | leaveDelegators => exact Nat.le_max_left _ _
    omega

theorem Runs.timely {world : R.World} {tr : List (State R × Move R)}
    (h : Runs (State.genesis world) tr s) : Timely s := by
  apply h.invariant (I := Timely)
  · intro c r hr
    cases hr
  · exact fun s m hs _ => hs.next m

end Rounds

section Leaves
variable {s s' : State R} {c d : R.Account} {D : Delegator R.Account}

/-- The state of `s'` without the delegator: its revokes and delegations are gone with it, the lock
is off, and all others have theirs. -/
structure Departed (s s' : State R) (d : R.Account) : Prop where
  state : s'.delegatorState.get d = none
  requests : ∀ c, ∀ r ∈ s'.delegationScheduledRequests c, r.delegator ≠ d
  lists : ∀ c x, x ∈ s'.delegationsTo c ↔ x ∈ s.delegationsTo c ∧ x.owner ≠ d
  unlocked : s'.world = R.removeLock s.world .delegator d
  others : ∀ e, e ≠ d → s'.delegatorState.get e = s.delegatorState.get e

theorem totalSub_run {less : ℕ} :
    D.totalSub less s = (.ok { D with total := D.total - less },
      { s with world := R.relock s.world { D with total := D.total - less } }) := by
  unfold Delegator.totalSub
  exact (Tx.bind_run_of_ok adjustBondLock_decrease).trans rfl

/-- With a due revoke of every delegation the check goes through. -/
theorem validateRevokes_run {bonds : List (Bond R.Account)}
    (h : ∀ x ∈ bonds, ∃ request rest,
      takeRevoke d (s.delegationScheduledRequests x.owner) = some (request, rest) ∧
        request.whenExecutable ≤ s.round.current) :
    ∃ validated, validateRevokes d bonds s = (.ok validated, s) := by
  induction bonds with
  | nil => exact ⟨[], rfl⟩
  | cons bond bonds ih =>
    obtain ⟨hbond, hrest⟩ := List.forall_mem_cons.mp h
    obtain ⟨request, rest, htake, hdue⟩ := hbond
    obtain ⟨validated, hrun⟩ := ih hrest
    refine ⟨(bond, rest) :: validated, ?_⟩
    unfold validateRevokes
    rw [readRequests, Tx.read_bind_ok]
    refine ⟨_, rfl, ?_⟩
    rw [getOr_bind htake]
    refine (ensure_bind (decide_eq_true hdue)).trans ?_
    exact (Tx.bind_run_of_ok hrun).trans rfl

/-- The revoke of a delegator is the one that is found. -/
theorem takeRevoke_of_mem {requests : List (ScheduledRequest R.Account)}
    {r : ScheduledRequest R.Account} (hone : Distinct ScheduledRequest.delegator requests)
    (hr : r ∈ requests) (hrevoke : r.action.isRevoke = true) :
    ∃ rest, takeRevoke r.delegator requests = some (r, rest) := by
  cases htake : takeRevoke r.delegator requests with
  | none =>
    have hnone := List.find?_eq_none.mp (Option.map_eq_none_iff.mp htake) r hr
    simp [hrevoke] at hnone
  | some taken =>
    obtain ⟨q, rest⟩ := taken
    obtain ⟨p, hfind, heq⟩ := Option.map_eq_some_iff.mp htake
    obtain ⟨rfl, -⟩ := Prod.mk.inj heq
    have hp := List.find?_some hfind
    rw [Bool.and_eq_true, decide_eq_true_eq] at hp
    rw [hone.eq_of_key (List.mem_of_find?_eq_some hfind) hr hp.1]
    exact ⟨rest, rfl⟩

variable (hR : R.Placed) (hs : Books s)
include hR hs

theorem executeLeaveDelegators_run {n : ℕ} (who : R.Account)
    (hD : s.delegatorState.get d = some D) (hn : D.delegations.length ≤ n)
    (h : Departing s d s.round.current) :
    ∃ s', executeLeaveDelegators (.signed who) d n s = (.ok ⟨⟩, s') := by
  have hok := hs.delegators d D hD
  have hall : ∀ x ∈ D.delegations, ∃ request rest,
      takeRevoke d (s.delegationScheduledRequests x.owner) = some (request, rest) ∧
        request.whenExecutable ≤ s.round.current := by
    intro x hx
    rw [← delegationsOf_eq hD] at hx
    obtain ⟨r, hr, rfl, hrevoke, hdue⟩ := h x hx
    obtain ⟨rest, htake⟩ := takeRevoke_of_mem (hs.requests x.owner).distinct hr hrevoke
    exact ⟨r, rest, htake, hdue⟩
  have hmem : ∀ x ∈ D.delegations, ⟨d, x.amount⟩ ∈ s.delegationsTo x.owner := by
    intro x hx
    rw [hs.agree, delegationsOf_eq hD]
    exact hx
  obtain ⟨validated, hvalid⟩ := validateRevokes_run hall
  obtain ⟨-, hfst, -⟩ := validateRevokes_ok (fun c => (hs.requests c).distinct) hvalid
  obtain ⟨info, top, bottom, pool, total, hleave, -⟩ :=
    leaveAll_run hR hs.candidates hok.ordered.oneEach hmem
  rw [← hfst] at hleave
  apply Exists.intro
  unfold executeLeaveDelegators delegatorExecuteScheduledRevokeAll
  rw [Tx.transactional_run_ok, Tx.read_bind_ok]
  refine ⟨who, rfl, ?_⟩
  rw [getOr_bind hD, ensure_bind (decide_eq_true hn), hok.status]
  refine (Tx.bind_run_of_ok hvalid).trans ?_
  refine (Tx.bind_run_of_ok hleave).trans ?_
  exact (Tx.bind_run_of_ok totalSub_run).trans rfl

/-- Who has left is nowhere in the books. -/
theorem executeLeaveDelegators_departed {origin : Origin R} {n : ℕ} {u : PUnit}
    (h : executeLeaveDelegators origin d n s = (.ok u, s')) : Departed s s' d := by
  obtain ⟨D, info, top, bottom, pool, total, requests, hD, hleft, hrequests, -, rfl⟩ :=
    executeLeaveDelegators_left hR hs h
  refine ⟨get_remove_self _ _, fun c => (hrequests c).2, ?_, ?_, fun e he => get_remove_of_ne _ he⟩
  · intro c x
    rw [← delegationsOf_eq hD] at hleft
    show x ∈ (s.reworked info top bottom pool total).delegationsTo c ↔ _
    rw [hleft.mem_delegationsTo]
    have howner : x ∈ s.delegationsTo c → x.owner = d →
        c ∈ (s.delegationsOf d).map Bond.owner := by
      rintro hx rfl
      exact List.mem_map.mpr ⟨_, (hs.agree c x.owner x.amount).mp hx, rfl⟩
    tauto
  · show R.relock s.world { D with total := D.total - D.total } = _
    rw [Runtime.relock, if_pos (Nat.sub_self _), (hs.delegators d D hD).id]

end Leaves

section Runs
variable {s₀ s₁ s : State R} {tr₀ tr : List (State R × Move R)} {d : R.Account} {deadline : ℕ}
  (hR : R.Placed) (hfree : ∀ w a, R.freeBalance w a ≤ maxBalance)
include hR hfree

/-- As long as the delegator does not undo it, it stays ready to leave. -/
theorem Runs.departing (h : Runs s₁ tr s) (hs : Books s₁) (hd : Departing s₁ d deadline)
    (hkeeps : ∀ x ∈ tr, ¬ Undoes d x.2) : Books s ∧ Departing s d deadline := by
  induction h with
  | nil => exact ⟨hs, hd⟩
  | @snoc tr s m _ _ ih =>
    obtain ⟨hbooks, hready⟩ := ih fun x hx => hkeeps x (List.mem_append_left _ hx)
    have hm := hkeeps (s, m) (List.mem_append_right _ (List.mem_singleton_self _))
    exact ⟨hbooks.step hR hfree m, hready.spared (Move.next_spares hR hbooks hfree hm)⟩

/-- After the longer of its two delays a delegator that has scheduled to leave, and has not undone
it, can be made to leave by anyone. -/
theorem scheduled_delegator_leaves {world : R.World} {D : Delegator R.Account} {n : ℕ}
    (who : R.Account) (h₀ : Runs (State.genesis world) tr₀ s₀)
    (hcall : Call.scheduleLeaveDelegators.Accepted (.signed d) s₀)
    (h : Runs (Move.next s₀ (.call (.signed d) .scheduleLeaveDelegators)) tr s)
    (hkeeps : ∀ x ∈ tr, ¬ Undoes d x.2)
    (hround : s₀.round.current + max R.leaveDelegatorsDelay R.revokeDelegationDelay ≤
      s.round.current)
    (hD : s.delegatorState.get d = some D) (hn : D.delegations.length ≤ n) :
    ∃ s', (Call.executeLeaveDelegators d n).dispatch (.signed who) s = (.ok ⟨⟩, s') ∧
      Departed s s' d := by
  obtain ⟨u, hu⟩ := hcall
  have hrun := Tx.run_of_fst hu
  have h₁ : Runs (State.genesis world) _
      (Move.next s₀ (.call (.signed d) .scheduleLeaveDelegators)) := h₀.snoc trivial
  have hcurrent : (Move.next s₀ (.call (.signed d) .scheduleLeaveDelegators)).round.current =
      s₀.round.current := Call.dispatch_current _ s₀
  obtain ⟨e, he, hrevokes, -⟩ := scheduleLeaveDelegators_revokes (h₀.books hR hfree) hrun
  obtain rfl := RawOrigin.signed.inj he
  have hready : Departing (Move.next s₀ (.call (.signed d) .scheduleLeaveDelegators)) d
      s.round.current := by
    intro x hx
    obtain ⟨r, hr, hrd, hrevoke⟩ := hrevokes x hx
    have hdue := h₁.timely x.owner r hr
    exact ⟨r, hr, hrd, hrevoke, by omega⟩
  obtain ⟨hbooks, hdeparting⟩ := Runs.departing hR hfree h (h₁.books hR hfree) hready hkeeps
  obtain ⟨s', hleave⟩ := executeLeaveDelegators_run hR hbooks who hD hn hdeparting
  exact ⟨s', hleave, executeLeaveDelegators_departed hR hbooks hleave⟩

end Runs

section Witness
open Staking.Sample

/-- Account 3 delegates to two candidates. -/
def spread : List (Move (runtime 1)) :=
  [user 1 (.joinCandidates 10 0), user 2 (.joinCandidates 10 1), user 3 (.delegate (1 : ℕ) 20 0 0),
    user 3 (.delegate (2 : ℕ) 5 0 1)]

def departure : Move (runtime 1) := user 3 .scheduleLeaveDelegators

/-- While it waits, one of the candidates goes offline, and two others push its delegation to the
second one out. -/
def bustle : List (Move (runtime 1)) :=
  [user 1 .goOffline, user 4 (.delegate (2 : ℕ) 30 1 0), user 5 (.delegate (2 : ℕ) 40 2 0),
    .block 10]

theorem scheduled_delegator_leaves_sample : ∃ s', (Call.executeLeaveDelegators (3 : ℕ) 1).dispatch
    (.signed (6 : ℕ)) (bustle.foldl Move.next (departure.next (after spread))) = (.ok ⟨⟩, s') ∧
      Departed (bustle.foldl Move.next (departure.next (after spread))) s' (3 : ℕ) := by
  have hD : (bustle.foldl Move.next (departure.next (after spread))).delegatorState.get (3 : ℕ) =
      some ⟨(3 : ℕ), [⟨(1 : ℕ), 20⟩], 20, 20, .active⟩ := by decide +kernel
  have hkeeps : ∀ x ∈ trace Move.next (departure.next (after spread)) bustle,
      ¬ Undoes (3 : ℕ) x.2 := by
    intro x hx hundoes
    have hm := mem_of_trace hx
    generalize x.2 = m at hm hundoes
    cases hundoes with
    | delegate =>
      simp only [bustle, user, List.mem_cons, Move.call.injEq, reduceCtorEq, and_false,
        List.not_mem_nil, or_false, false_or] at hm
      rcases hm with ⟨hm, -⟩ | ⟨hm, -⟩
      · exact absurd (RawOrigin.signed.inj hm) (by decide : (3 : ℕ) ≠ 4)
      · exact absurd (RawOrigin.signed.inj hm) (by decide : (3 : ℕ) ≠ 5)
    | cancelLeave => simp [bustle, user] at hm
    | cancelRequest => simp [bustle, user] at hm
  exact scheduled_delegator_leaves runtime_proper.placed (fun _ => freeBalance_le) (6 : ℕ)
    (Run.play fun _ _ => trivial) ⟨⟨⟩, by decide +kernel⟩ (Run.play fun _ _ => trivial) hkeeps
    (by decide +kernel) hD (Nat.le_refl 1)

end Witness

end Staking
end ZkNft
