import ZkNft.Staking.Requests

/-! The calls that change delegations. -/

namespace ZkNft
namespace Staking
open Keyed StorageMap

variable {R : Runtime}

section Revokes
variable {s s' : State R} {d : R.Account} {requests : List (ScheduledRequest R.Account)}

/-- The revoke is the one request of the delegator. -/
theorem takeRevoke_eq_some {request : ScheduledRequest R.Account}
    {rest : List (ScheduledRequest R.Account)}
    (hone : Distinct ScheduledRequest.delegator requests)
    (h : takeRevoke d requests = some (request, rest)) :
    rest.Sublist requests ∧ (∀ r ∈ rest, r.delegator ≠ d) ∧
      ∀ e, e ≠ d → requestedBy e rest = requestedBy e requests := by
  unfold takeRevoke at h
  obtain ⟨q, hq, heq⟩ := Option.map_eq_some_iff.mp h
  obtain ⟨-, rfl⟩ := Prod.mk.inj heq
  have hother : ∀ e, e ≠ d → requestedBy e (requests.eraseP fun r =>
      decide (r.delegator = d) && r.action.isRevoke) = requestedBy e requests := by
    intro e he
    apply requestedBy_erase
    intro r hr
    rw [of_decide_eq_true (Bool.and_eq_true_iff.mp hr).1]
    exact he.symm
  refine ⟨List.eraseP_sublist, ?_, hother⟩
  clear hother
  have hqmem := List.mem_of_find?_eq_some hq
  have hqd : q.delegator = d ∧ q.action.isRevoke = true := by simpa using List.find?_some hq
  clear h heq hq
  induction requests with
  | nil => cases hqmem
  | cons p requests ih =>
    have ⟨hne, hrest⟩ := distinct_cons.mp hone
    intro r hr
    rw [List.eraseP_cons, cond_eq_ite] at hr
    by_cases hp : (decide (p.delegator = d) && p.action.isRevoke) = true
    · rw [if_pos hp] at hr
      have hpd : p.delegator = d := by simpa using (Bool.and_eq_true_iff.mp hp).1
      rw [← hpd]
      exact hne r hr
    · rw [if_neg hp] at hr
      rcases List.mem_cons.mp hqmem with rfl | hqtail
      · exact absurd (by simpa using hqd) hp
      · rcases List.mem_cons.mp hr with rfl | hr
        · intro hrd
          exact hne q hqtail (hqd.1.trans hrd.symm)
        · exact ih hrest hqtail r hr

/-- The check reads only, and every request of `d` for a checked candidate is taken. -/
theorem validateRevokes_ok {bonds : List (Bond R.Account)}
    {validated : List (Bond R.Account × List (ScheduledRequest R.Account))}
    (hone : ∀ c, Distinct ScheduledRequest.delegator (s.delegationScheduledRequests c))
    (h : validateRevokes d bonds s = (.ok validated, s')) :
    s' = s ∧ validated.map Prod.fst = bonds ∧ ∀ x ∈ validated,
      x.2.Sublist (s.delegationScheduledRequests x.1.owner) ∧ (∀ r ∈ x.2, r.delegator ≠ d) ∧
      ∀ e, e ≠ d →
        requestedBy e x.2 = requestedBy e (s.delegationScheduledRequests x.1.owner) := by
  induction bonds generalizing validated with
  | nil =>
    obtain ⟨rfl, rfl⟩ := Tx.pure_ok.mp h
    exact ⟨rfl, rfl, by simp⟩
  | cons x bonds ih =>
    simp only [validateRevokes, readRequests, Tx.read_bind_ok, getOr_bind_ok, ensure_bind_ok,
      Exec.ok.injEq, exists_eq_left'] at h
    obtain ⟨⟨request, rest⟩, htake, -, h⟩ := h
    obtain ⟨validated', s₁, hrec, hpure⟩ := Tx.bind_run_ok.mp h
    obtain ⟨rfl, rfl⟩ := Tx.pure_ok.mp hpure
    obtain ⟨rfl, hfst, hall⟩ := ih hrec
    refine ⟨rfl, congrArg (x :: ·) hfst, ?_⟩
    exact List.forall_mem_cons.mpr ⟨takeRevoke_eq_some (hone x.owner) htake, hall⟩

end Revokes

/-- A check that is made on one branch only. -/
theorem ite_ensure_ok {s s' : State R} {α : Type} {P : Prop} [Decidable P] {p : State R → Bool}
    {e : Error} {g : PUnit → Update R α} {a : α}
    (h : (if P then ensure p e >>= g else g ⟨⟩) s = (.ok a, s')) : g ⟨⟩ s = (.ok a, s') := by
  split_ifs at h
  · exact (ensure_bind_ok.mp h).2
  · exact h

theorem totalSubIf_run {s : State R} {D : Delegator R.Account} {less : ℕ}
    (hmin : R.minDelegation ≤ D.total - less) (hmin' : R.minDelegatorStk ≤ D.total - less) :
    D.totalSubIf less s = (.ok { D with total := D.total - less },
      { s with world := R.relock s.world { D with total := D.total - less } }) := by
  unfold Delegator.totalSubIf
  rw [ensure_bind (decide_eq_true hmin), ensure_bind (decide_eq_true hmin')]
  exact (Tx.bind_run_of_ok adjustBondLock_decrease).trans rfl

section Calls
variable {s s' : State R} {u : PUnit} {origin : Origin R} (hR : R.Placed) (hs : Books s)
include hR hs

/-- The delegator goes with its requests, and its delegations go from the candidates. -/
theorem executeLeaveDelegators_left {d : R.Account} {n : ℕ}
    (h : executeLeaveDelegators origin d n s = (.ok u, s')) :
    ∃ D info top bottom pool total requests, s.delegatorState.get d = some D ∧
      Left s (s.reworked info top bottom pool total) d (D.delegations.map Bond.owner) ∧
      (∀ c, (requests c).Sublist (s.delegationScheduledRequests c) ∧
        ∀ r ∈ requests c, r.delegator ≠ d) ∧
      (∀ c e, e ≠ d →
        requestedBy e (requests c) = requestedBy e (s.delegationScheduledRequests c)) ∧
      s' = { s.reworked info top bottom pool total with
        delegatorState := s.delegatorState.remove d
        delegationScheduledRequests := requests
        world := R.relock s.world { D with total := D.total - D.total } } := by
  obtain ⟨D, hD, hcases⟩ := executeLeaveDelegators_cases h
  have hok := hs.delegators d D hD
  have hactive : ∀ when, D.status ≠ .leaving when := by
    intro when hwhen
    rw [hok.status] at hwhen
    cases hwhen
  obtain ⟨validated, s₁, s₂, s₃, -, hvalid, hleave, hlock, rfl⟩ :=
    hcases.resolve_left fun ⟨when, _, hwhen, _⟩ => hactive when hwhen
  obtain ⟨rfl, hfst, hall⟩ := validateRevokes_ok (fun c => (hs.requests c).distinct) hvalid
  have hmem : ∀ x ∈ D.delegations, ⟨d, x.amount⟩ ∈ s₁.delegationsTo x.owner := by
    intro x hx
    rw [hs.agree, delegationsOf_eq hD]
    exact hx
  obtain ⟨info, top, bottom, pool, total, hrun, hleft⟩ :=
    leaveAll_run hR hs.candidates hok.ordered.oneEach hmem
  rw [hfst, hrun] at hleave
  obtain rfl := (Prod.mk.inj hleave).2
  obtain ⟨requests, hset, hcases⟩ := setAllRequests_eq (s := s₃)
    (validated.map fun x => (x.1.owner, x.2))
  rw [hset]
  rw [adjustBondLock_decrease] at hlock
  obtain rfl := (Prod.mk.inj hlock).2
  have hrequests : ∀ c, (requests c).Sublist (s₁.delegationScheduledRequests c) ∧
      (∀ r ∈ requests c, r.delegator ≠ d) ∧
      ∀ e, e ≠ d →
        requestedBy e (requests c) = requestedBy e (s₁.delegationScheduledRequests c) := by
    intro c
    rcases hcases c with ⟨hkeep, hne⟩ | ⟨y, hy, hyc, hreq⟩
    · rw [hkeep]
      refine ⟨.refl _, ?_, fun _ _ => rfl⟩
      intro r hr hrd
      obtain ⟨a, hlive, -⟩ := (hs.requests c).live r hr
      rw [hrd, delegationsOf_eq hD, ← hfst] at hlive
      obtain ⟨x, hx, hxc⟩ := List.mem_map.mp hlive
      apply hne (x.1.owner, x.2) (List.mem_map_of_mem hx)
      exact congrArg Bond.owner hxc
    · obtain ⟨x, hx, rfl⟩ := List.mem_map.mp hy
      have hx' := hall x hx
      rw [hreq, ← hyc]
      exact hx'
  exact ⟨D, info, top, bottom, pool, total, requests, hD, hleft,
    fun c => ⟨(hrequests c).1, (hrequests c).2.1⟩, fun c => (hrequests c).2.2, rfl⟩

theorem executeLeaveDelegators_effect {d : R.Account} {n : ℕ}
    (h : executeLeaveDelegators origin d n s = (.ok u, s')) : Effect s s' := by
  obtain ⟨D, _, _, _, _, _, _, hD, hleft, hrequests, hothers, rfl⟩ :=
    executeLeaveDelegators_left hR hs h
  exact .leaveDelegators hD hleft hrequests hothers

/-- A delegation that is not to be revoked has become larger. -/
theorem delegatorBondMore_increased {c : R.Account} {more : ℕ}
    (hfree : ∀ w a, R.freeBalance w a ≤ maxBalance)
    (h : delegatorBondMore origin c more s = (.ok u, s')) :
    ∃ d a D candidatePool, ∃ w : Rework s c [⟨d, a⟩] [⟨d, a + more⟩],
      StaysExact w.bottom w.bottom' ∧ s.delegatorState.get d = some D ∧
      ⟨c, a⟩ ∈ D.delegations ∧ more ≤ R.freeBalance s.world d - D.total ∧
      delegationRequestRevokeExists s c d = false ∧
      s' = { w.result with
        candidatePool
        total := satAdd s.total more
        delegatorState := s.delegatorState.insert d
          (D.changed c (satAdd · more) (satAdd D.total more) D.lessTotal)
        world := R.relock s.world
          (D.changed c (satAdd · more) (satAdd D.total more) D.lessTotal) } := by
  obtain ⟨d, D, a, hrevoke, hD, hbond, h⟩ := delegatorBondMore_ok h
  unfold Delegator.storeIncrease at h
  have hok := hs.delegators d D hD
  obtain rfl := hok.id
  have hmem := (getBondAmount_eq_some hok.ordered.oneEach).mp hbond
  obtain ⟨_, s₁, hlock, h⟩ := Tx.bind_run_ok.mp h
  obtain ⟨hroom, rfl⟩ := adjustBondLock_increase_ok hlock
  obtain ⟨m, hm, h⟩ := getOr_bind_ok.mp h
  obtain ⟨top, bottom, htop, hbottom, hr, hmirrors⟩ := hs.candidates.lists hm
  have hto : ⟨D.id, a⟩ ∈ s.delegationsTo c := by
    rw [hs.agree, delegationsOf_eq hD]
    exact hmem
  rw [delegationsTo_eq htop hbottom] at hto
  have hroom' : more ≤ R.freeBalance s.world D.id - D.total := by
    unfold State.delegatorStakableFreeBalance at hroom
    rw [hD] at hroom
    exact hroom
  have hle : a ≤ D.total := by
    rw [hok.total]
    exact amount_le_amounts hmem
  have hmax : a + more ≤ maxBalance := by
    have hfree' := hfree s.world D.id
    have htotal := hok.total_le
    omega
  obtain ⟨m', top', bottom', hrun, hlists, hexact⟩ :=
    increaseDelegation_run
      (s := { s with world := R.relock s.world (D.changed c (satAdd · more) (satAdd D.total more)
        D.lessTotal) }) hR htop hbottom hr hmirrors hto hmax
  have h := (Tx.bind_run_of_ok hrun).symm.trans h
  split_ifs at h
  · rw [← (Prod.mk.inj h).2]
    exact ⟨D.id, a, D, _, ⟨m, m', top, bottom, top', bottom', hm, htop, hbottom, hlists⟩, hexact,
      hD, hmem, hroom', hrevoke, rfl⟩
  · rw [← (Prod.mk.inj h).2]
    exact ⟨D.id, a, D, _, ⟨m, m', top, bottom, top', bottom', hm, htop, hbottom, hlists⟩, hexact,
      hD, hmem, hroom', hrevoke, rfl⟩

theorem delegatorBondMore_effect {c : R.Account} {more : ℕ}
    (hfree : ∀ w a, R.freeBalance w a ≤ maxBalance)
    (h : delegatorBondMore origin c more s = (.ok u, s')) : Effect s s' := by
  obtain ⟨d, a, D, pool, w, hexact, hD, hmem, hroom, hrevoke, rfl⟩ :=
    delegatorBondMore_increased hR hs hfree h
  exact .increase pool w hexact hD hmem hroom hrevoke

/-- A revoked delegation has gone from both books. -/
theorem executeRevoke_dropped {c d : R.Account} {a : ℕ} {D : Delegator R.Account}
    {request : ScheduledRequest R.Account} {rest : List (ScheduledRequest R.Account)}
    (hD : s.delegatorState.get d = some D)
    (htake : takeRequest d (s.delegationScheduledRequests c) = some (request, rest))
    (haction : request.action = .revoke a)
    (h : executeRevoke c d D a rest s = (.ok u, s')) :
    ∃ (w : Rework s c [⟨d, a⟩] []) (v : Drop s c d a), StaysExact w.bottom w.bottom' ∧
      s' = { w.result with
        total := s.total - a
        delegatorState := v.result.delegatorState
        delegationScheduledRequests := v.result.delegationScheduledRequests
        world := v.world } := by
  have hok := hs.delegators d D hD
  have ⟨hmem, hrd, hrest⟩ := takeRequest_eq_some htake
  obtain ⟨b, hlive, hall⟩ := (hs.requests c).live request hmem
  obtain rfl := hall a haction
  rw [hrd] at hlive
  have hto : ⟨d, a⟩ ∈ s.delegationsTo c := (hs.agree c d a).mpr hlive
  rw [delegationsOf_eq hD] at hlive
  have hok' : DelegatorOk R d { D with lessTotal := D.lessTotal - a } := ⟨hok.id, hok.ordered,
    hok.nonempty, hok.length_le, hok.pos, hok.total, hok.total_le, hok.status⟩
  obtain ⟨w, hleave, hexact⟩ := delegatorLeavesCandidate_run
    (s := { s with world := R.relock s.world (D.rest c a (D.lessTotal - a)) }) hR hs.candidates hto
  unfold executeRevoke at h
  have h := ite_ensure_ok h
  have h := (Tx.bind_run_of_ok (rmDelegation_run hok' hlive)).symm.trans h
  have h := (Tx.bind_run_of_ok hleave).symm.trans h
  have hs' := Tx.modify_ok.mp h
  have hnil := rest_nil_iff (l := D.lessTotal - a) hok hlive
  have hamount : requestedBy d (s.delegationScheduledRequests c) = a := by
    rw [requestedBy_of_take htake, haction]
    rfl
  have hstore : (Drop.relock (s := s) hD hok hlive).result.delegatorState =
      if D.delegations.length = 1 then s.delegatorState.remove d
      else s.delegatorState.insert d (D.rest c a (D.lessTotal - a)) := by
    show storeRest s.delegatorState d (D.rest c a (D.lessTotal -
      requestedBy d (s.delegationScheduledRequests c))) = _
    unfold storeRest
    rw [hamount, if_congr hnil rfl rfl]
  refine ⟨w.ofWorld, Drop.relock hD hok hlive, hexact, ?_⟩
  rw [hstore, hs', hrest]
  by_cases hlen : D.delegations.length = 1
  · rw [if_pos hlen, decide_eq_true hlen]
    rfl
  · rw [if_neg hlen, decide_eq_false hlen]
    rfl

theorem executeRevoke_effect {c d : R.Account} {a : ℕ} {D : Delegator R.Account}
    {request : ScheduledRequest R.Account} {rest : List (ScheduledRequest R.Account)}
    (hD : s.delegatorState.get d = some D)
    (htake : takeRequest d (s.delegationScheduledRequests c) = some (request, rest))
    (haction : request.action = .revoke a)
    (h : executeRevoke c d D a rest s = (.ok u, s')) : Effect s s' := by
  obtain ⟨w, v, hexact, rfl⟩ := executeRevoke_dropped hR hs hD htake haction h
  exact .revoke w hexact v

theorem executeDecrease_run {c d : R.Account} {a less : ℕ} {D : Delegator R.Account}
    (hD : s.delegatorState.get d = some D) (hmem : ⟨c, a⟩ ∈ D.delegations) (hless : less < a)
    (hmin : R.minDelegation ≤ D.total - less) (hmin' : R.minDelegatorStk ≤ D.total - less) :
    ∃ s', executeDecrease c d D less (dropRequest d (s.delegationScheduledRequests c)) s =
      (.ok ⟨⟩, s') ∧ Decreased s s' c d a less := by
  have hok := hs.delegators d D hD
  have hbond := (getBondAmount_eq_some hok.ordered.oneEach).mpr hmem
  have hto : ⟨d, a⟩ ∈ s.delegationsTo c := by
    rw [hs.agree, delegationsOf_eq hD]
    exact hmem
  obtain ⟨m, hm⟩ := hs.candidates.candidate_of_mem hto
  obtain ⟨top, bottom, htop, hbottom, hr, hmirrors⟩ := hs.candidates.lists hm
  rw [delegationsTo_eq htop hbottom] at hto
  obtain ⟨m', top', bottom', hrun, hlists, hexact, htotal⟩ := decreaseDelegation_run
    (s := { s with
      world := R.relock s.world (D.changed c (· - less) (D.total - less) (D.lessTotal - less)) })
    hR htop hbottom hr hmirrors hto hless
  refine ⟨_, ?_, ⟨⟨m, m', top, bottom, top', bottom', hm, htop, hbottom, hlists⟩, D, hD, hmem,
    hless, hexact, htotal, rfl⟩⟩
  unfold executeDecrease
  rw [getOr_bind hbond, ensure_bind (decide_eq_true hless), getOr_bind hm]
  have hsub : Delegator.totalSubIf (D.changed c (· - less) D.total (D.lessTotal - less)) less s =
      (.ok (D.changed c (· - less) (D.total - less) (D.lessTotal - less)), _) :=
    totalSubIf_run hmin hmin'
  refine (Tx.bind_run_of_ok hsub).trans ?_
  exact (Tx.bind_run_of_ok hrun).trans rfl

/-- A decrease by `less` of the delegation of `a` by `d` to `c` is due, and what is left is
enough. -/
def DecreaseDue (s : State R) (c d : R.Account) (a less : ℕ) : Prop :=
  ∃ D request rest, s.delegatorState.get d = some D ∧
    takeRequest d (s.delegationScheduledRequests c) = some (request, rest) ∧
    request.action = .decrease less ∧ request.whenExecutable ≤ s.round.current ∧
    D.getBondAmount c = some a ∧ less < a ∧ R.minDelegation ≤ D.total - less ∧
    R.minDelegatorStk ≤ D.total - less

/-- A due decrease goes through. -/
theorem executeDelegationRequest_due {c d : R.Account} {a less : ℕ} (who : R.Account)
    (h : DecreaseDue s c d a less) : ∃ s',
    executeDelegationRequest (.signed who) d c s = (.ok ⟨⟩, s') ∧ Decreased s s' c d a less := by
  obtain ⟨D, request, rest, hD, htake, haction, hdue, hbond, hless, hmin, hmin'⟩ := h
  have hok := hs.delegators d D hD
  have hmem := (getBondAmount_eq_some hok.ordered.oneEach).mp hbond
  obtain ⟨-, -, rfl⟩ := takeRequest_eq_some htake
  obtain ⟨s', hrun, hdecreased⟩ := executeDecrease_run hR hs hD hmem hless hmin hmin'
  refine ⟨s', ?_, hdecreased⟩
  unfold executeDelegationRequest delegationExecuteScheduledRequest
  rw [Tx.transactional_run_ok, Tx.read_bind_ok]
  refine ⟨who, rfl, ?_⟩
  rw [getOr_bind hD, readRequests, Tx.read_bind_ok]
  refine ⟨_, rfl, ?_⟩
  rw [getOr_bind htake]
  refine (ensure_bind (decide_eq_true hdue)).trans ?_
  rw [haction]
  exact hrun

theorem executeDelegationRequest_effect {c d : R.Account}
    (h : executeDelegationRequest origin d c s = (.ok u, s')) :
    Effect s s' ∨ ∃ a less, DecreaseDue s c d a less ∧ Decreased s s' c d a less := by
  have hcall := h
  obtain ⟨who, D, request, rest, rfl, hD, htake, hdue, ⟨a, haction, h⟩ | ⟨less, haction, h⟩⟩ :=
    executeDelegationRequest_ok h
  · exact .inl (executeRevoke_effect hR hs hD htake haction h)
  · obtain ⟨a, _, _, _, _, _, hbond, hless, hmin, hmin', -⟩ := executeDecrease_ok h
    have hdecrease : DecreaseDue s c d a less := ⟨D, request, rest, hD, htake, haction, hdue,
      hbond, hless, hmin, hmin'⟩
    obtain ⟨s₁, hrun, hdecreased⟩ := executeDelegationRequest_due hR hs who hdecrease
    rw [hcall] at hrun
    obtain rfl := (Prod.mk.inj hrun).2
    exact .inr ⟨a, less, hdecrease, hdecreased⟩

omit hR hs in
/-- A first delegation. -/
theorem DelegatorOk.new {c d : R.Account} {a : ℕ} (hpos : 0 < a) (hle : a ≤ maxBalance) :
    DelegatorOk R d (Delegator.new d c a) ∧ (Delegator.new d c a).delegations = [⟨c, a⟩] := by
  have hone : ByOwner [(⟨c, a⟩ : Bond R.Account)] := List.pairwise_singleton _ _
  have hlist : (Delegator.new d c a).delegations = [⟨c, a⟩] := OrderedSet.ofList_eq hone
  refine ⟨⟨rfl, ?_, ?_, ?_, ?_, ?_, hle, rfl⟩, hlist⟩
  · rw [hlist]
    exact hone
  · rw [hlist]
    exact List.cons_ne_nil _ _
  · rw [hlist]
    exact Nat.le_max_left _ _
  · rw [hlist]
    intro x hx
    rw [List.mem_singleton.mp hx]
    exact hpos
  · rw [hlist, amounts_cons, amounts_nil]
    rfl

omit hR hs in
/-- A further delegation goes to a candidate that has none of the delegator. -/
theorem DelegatorOk.addDelegation {c d : R.Account} {a : ℕ} {D D' : Delegator R.Account}
    (hok : DelegatorOk R d D) (hpos : 0 < a) (hle : D.total + a ≤ maxBalance)
    (hlen : D.delegations.length < R.maxDelegationsPerDelegator)
    (h : D.addDelegation ⟨c, a⟩ = some D') : DelegatorOk R d D' ∧ D'.total = D.total + a ∧
      D'.delegations.Perm (⟨c, a⟩ :: D.delegations) ∧ ∀ x ∈ D.delegations, x.owner ≠ c := by
  obtain ⟨l, hinsert, rfl⟩ := Option.map_eq_some_iff.mp h
  obtain ⟨hperm, hordered, hnew⟩ := OrderedSet.insert_eq_some hok.ordered hinsert
  have hadd : satAdd D.total a = D.total + a := satAdd_eq hle
  have hsum : amounts l = a + amounts D.delegations := (amounts_perm hperm).trans amounts_cons
  have htotal := hok.total
  have hlength := hperm.length_eq
  rw [List.length_cons] at hlength
  refine ⟨⟨hok.id, hordered, ?_, ?_, ?_, ?_, ?_, hok.status⟩, hadd, hperm, hnew⟩
  · exact List.ne_nil_of_mem (hperm.mem_iff.mpr List.mem_cons_self)
  · show l.length ≤ _
    omega
  · intro x hx
    rcases List.mem_cons.mp (hperm.mem_iff.mp hx) with rfl | hx
    · exact hpos
    · exact hok.pos x hx
  · show satAdd D.total a = amounts l
    omega
  · show satAdd D.total a ≤ maxBalance
    omega

variable (hfree : ∀ w a, R.freeBalance w a ≤ maxBalance)
include hfree

/-- The state of a delegator that joins a candidate. -/
theorem joinDelegation_ok {c d : R.Account} {a n : ℕ} {D : Delegator R.Account}
    (hroom : a ≤ s.delegatorStakableFreeBalance d) (h : joinDelegation s d c a n = .ok D) :
    0 < a ∧ DelegatorOk R d D ∧ D.delegations.Perm (⟨c, a⟩ :: s.delegationsOf d) ∧
      D.total ≤ R.freeBalance s.world d ∧
      D.lessTotal = (s.delegatorState.get d).elim 0 Delegator.lessTotal ∧
      (s.delegatorState.get d = none → s.candidateInfo.get d = none) ∧
      ∀ x ∈ s.delegationsOf d, x.owner ≠ c := by
  unfold State.delegatorStakableFreeBalance at hroom
  unfold joinDelegation at h
  have hmax := hfree s.world d
  cases hD : s.delegatorState.get d with
  | some D₀ =>
    rw [hD] at h hroom
    simp only [Option.elim_some] at h hroom
    split_ifs at h with hmin _ hlen
    have hpos : 0 < a := Nat.lt_of_lt_of_le hR.minDelegation_pos hmin
    have hok := hs.delegators d D₀ hD
    cases hadd : D₀.addDelegation ⟨c, a⟩ with
    | none =>
      rw [hadd] at h
      cases h
    | some D₁ =>
      rw [hadd] at h
      obtain rfl := Except.ok.inj h
      obtain ⟨hok', htotal, hperm, hnew⟩ := hok.addDelegation hpos (by omega) hlen hadd
      obtain ⟨l, -, rfl⟩ := Option.map_eq_some_iff.mp hadd
      rw [delegationsOf_eq hD]
      refine ⟨hpos, hok', hperm, by omega, rfl, ?_, hnew⟩
      intro hnone
      cases hnone
  | none =>
    rw [hD] at h hroom
    simp only [Option.elim_none, Nat.sub_zero] at h hroom
    split_ifs at h with hmin hcandidate
    have hpos : 0 < a := Nat.lt_of_lt_of_le hR.minDelegatorStk_pos hmin
    obtain rfl := Except.ok.inj h
    have ⟨hok, hlist⟩ := DelegatorOk.new (c := c) (d := d) hpos (Nat.le_trans hroom hmax)
    have hnil : s.delegationsOf d = [] := by
      rw [State.delegationsOf, hD]
      rfl
    rw [hnil, hlist]
    refine ⟨hpos, hok, .refl _, hroom, rfl, ?_, by simp⟩
    intro _
    simpa [State.isCandidate, containsKey] using hcandidate

/-- The signer has one delegation more, and another delegator may have been kicked. -/
theorem delegate_added {c : R.Account} {a n k : ℕ}
    (h : delegate origin c a n k s = (.ok u, s')) :
    ∃ d m m' top bottom less s₁ D, origin = .signed d ∧ s.candidateInfo.get c = some m ∧
      s.topDelegations.get c = some top ∧ s.bottomDelegations.get c = some bottom ∧
      Added s c d a m top bottom less m' s₁ ∧ 0 < a ∧ DelegatorOk R d D ∧
      D.delegations.Perm (⟨c, a⟩ :: s.delegationsOf d) ∧ D.total ≤ R.freeBalance s.world d ∧
      D.lessTotal = (s.delegatorState.get d).elim 0 Delegator.lessTotal ∧
      (s.delegatorState.get d = none → s.candidateInfo.get d = none) ∧
      s' = { s₁ with
        total := satAdd s.total (a - less.getD 0)
        candidateInfo := s.candidateInfo.insert c m'
        delegatorState := s₁.delegatorState.insert d D
        world := R.relock s₁.world D } := by
  obtain ⟨d, D, m, m', less, s₁, s₂, hsigned, hroom, hjoin, hm, hadd, hlock, rfl⟩ := delegate_ok h
  obtain ⟨hpos, hD, hperm, hcovered, hless, hapart, hnew⟩ :=
    joinDelegation_ok hR hs hfree hroom hjoin
  obtain ⟨top, bottom, htop, hbottom, hr, hmirrors⟩ := hs.candidates.lists hm
  have hlists := delegationsTo_eq htop hbottom
  have hfresh : ∀ x ∈ top.delegations ++ bottom.delegations, x.owner ≠ d := by
    intro x hx hxd
    rw [← hlists] at hx
    have hmem := (hs.agree c x.owner x.amount).mp hx
    rw [hxd] at hmem
    exact hnew _ hmem rfl
  have hagree : ∀ x ∈ bottom.delegations, ⟨c, x.amount⟩ ∈ s.delegationsOf x.owner := by
    intro x hx
    apply (hs.agree c x.owner x.amount).mp
    rw [hlists]
    exact List.mem_append_right _ hx
  have hadded := addDelegation_ok hR htop hbottom hr hmirrors hfresh hpos hs.delegators hagree hadd
  obtain ⟨_, rfl⟩ := adjustBondLock_increase_ok hlock
  obtain ⟨htotal, hinfo⟩ := hadded.frame
  refine ⟨d, m, m', top, bottom, less, s₁, D, hsigned, hm, htop, hbottom, hadded, hpos, hD, hperm,
    hcovered, hless, hapart, ?_⟩
  rw [← htotal, ← hinfo]

theorem delegate_effect {c : R.Account} {a n k : ℕ}
    (h : delegate origin c a n k s = (.ok u, s')) : Effect s s' := by
  obtain ⟨d, m, m', top, bottom, less, s₁, D, -, hm, htop, hbottom, hadded, hpos, hD, hperm,
    hcovered, hless, hapart, rfl⟩ := delegate_added hR hs hfree h
  exact .delegate hm htop hbottom hadded hpos hD hperm hcovered hless hapart

/-- The effect of an accepted call; a decrease is kept apart. -/
theorem Call.dispatch_effect {call : Call R} (h : call.dispatch origin s = (.ok u, s')) :
    Effect s s' ∨ ∃ d c a less, call = .executeDelegationRequest d c ∧ DecreaseDue s c d a less ∧
      Decreased s s' c d a less := by
  cases call with
  | setTotalSelected => exact .inl (setTotalSelected_effect h)
  | setBlocksPerRound => exact .inl (setBlocksPerRound_effect h)
  | joinCandidates => exact .inl (joinCandidates_effect h)
  | scheduleLeaveCandidates => exact .inl (scheduleLeaveCandidates_effect h)
  | executeLeaveCandidates => exact .inl (executeLeaveCandidates_effect hs h)
  | cancelLeaveCandidates => exact .inl (cancelLeaveCandidates_effect h)
  | goOffline => exact .inl (goOffline_effect h)
  | goOnline => exact .inl (goOnline_effect h)
  | candidateBondMore => exact .inl (candidateBondMore_effect h)
  | scheduleCandidateBondLess => exact .inl (scheduleCandidateBondLess_effect h)
  | executeCandidateBondLess => exact .inl (executeCandidateBondLess_effect h)
  | cancelCandidateBondLess => exact .inl (cancelCandidateBondLess_effect h)
  | delegate => exact .inl (delegate_effect hR hs hfree h)
  | scheduleLeaveDelegators => exact .inl (scheduleLeaveDelegators_effect hs h)
  | executeLeaveDelegators => exact .inl (executeLeaveDelegators_effect hR hs h)
  | cancelLeaveDelegators => exact .inl (cancelLeaveDelegators_effect hs h)
  | scheduleRevokeDelegation => exact .inl (scheduleRevokeDelegation_effect hs h)
  | delegatorBondMore => exact .inl (delegatorBondMore_effect hR hs hfree h)
  | scheduleDelegatorBondLess => exact .inl (scheduleDelegatorBondLess_effect hs h)
  | executeDelegationRequest d c =>
    rcases executeDelegationRequest_effect hR hs h with h | ⟨a, less, hdue, h⟩
    · exact .inl h
    · exact .inr ⟨d, c, a, less, rfl, hdue, h⟩
  | cancelDelegationRequest => exact .inl (cancelDelegationRequest_effect hs h)

end Calls
/-- A call that is not accepted changes nothing. -/
theorem Call.dispatch_rollback {s : State R} {origin : Origin R} {call : Call R}
    (h : ∀ u, (call.dispatch origin s).1 ≠ .ok u) : (call.dispatch origin s).2 = s := by
  cases call <;> exact Tx.transactional_rollback h

end Staking
end ZkNft
