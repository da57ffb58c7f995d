import ZkNft.Staking.Waiting

/-! What is executed has waited for the delay of its kind, as long as what is scheduled is due after
this delay: the code adds the delay of a revoke for a decrease of a delegation and the delay of an
exit for the revokes of an exit, and its sums of rounds wrap or saturate. -/

namespace ZkNft
namespace Staking
open Keyed StorageMap

variable {R : Runtime}

/-- The move schedules it, and the code reads the last argument as its delay. -/
inductive Schedules : Move R → Unstaking R → ℕ → Prop where
  | leaveCandidates (c : R.Account) (n when : ℕ) :
    Schedules (.call (.signed c) (.scheduleLeaveCandidates n)) (.leaveCandidates c when)
      R.leaveCandidatesDelay
  | candidateBondLess (c : R.Account) (less when : ℕ) :
    Schedules (.call (.signed c) (.scheduleCandidateBondLess less))
      (.candidateBondLess c ⟨less, when⟩) R.candidateBondLessDelay
  | revoke (c d : R.Account) (a when : ℕ) :
    Schedules (.call (.signed d) (.scheduleRevokeDelegation c))
      (.delegation c ⟨d, when, .revoke a⟩) R.revokeDelegationDelay
  | decrease (c d : R.Account) (less when : ℕ) :
    Schedules (.call (.signed d) (.scheduleDelegatorBondLess c less))
      (.delegation c ⟨d, when, .decrease less⟩) R.revokeDelegationDelay
  | leaveDelegators (c d : R.Account) (a when : ℕ) :
    Schedules (.call (.signed d) .scheduleLeaveDelegators) (.delegation c ⟨d, when, .revoke a⟩)
      R.leaveDelegatorsDelay

/-- `when` is the round `delay` rounds after `now`, unless this is beyond the last round. -/
structure After (now delay when : ℕ) : Prop where
  le : when ≤ now + delay
  eq : now + delay < 2 ^ 32 → when = now + delay

theorem After.addRounds (now delay : ℕ) : After now delay (addRounds now delay) :=
  ⟨addRounds_le now delay, addRounds_eq⟩

theorem After.satAddRounds (now delay : ℕ) : After now delay (satAddRounds now delay) :=
  ⟨satAddRounds_le now delay, satAddRounds_eq⟩

/-- What waits after the move waited before, or has been scheduled by it. -/
def State.Scheduled (s : State R) (m : Move R) (p : Unstaking R) : Prop :=
  s.Waiting p ∨ ∃ delay, Schedules m p delay ∧ After s.round.current delay p.when

section Schedules
variable {s s' : State R} {c d : R.Account} {u : PUnit} {origin : Origin R}

theorem Calm.scheduled {m : Move R} (h : Calm s.Waiting s') : Calm (s.Scheduled m) s' :=
  h.mono fun _ hp => .inl hp

theorem scheduleLeaveCandidates_calm {n : ℕ}
    (h : scheduleLeaveCandidates origin n s = (.ok u, s')) :
    Calm (s.Scheduled (.call origin (.scheduleLeaveCandidates n))) s' := by
  obtain ⟨c, m, rfl, hm, -, hstore⟩ := scheduleLeaveCandidates_ok h
  obtain rfl := Tx.modify_ok.mp hstore
  refine ((Calm.refl s).scheduled.storeCandidate ?_ ?_).behind rfl
  · intro when hwhen
    obtain rfl := CollatorStatus.leaving.inj hwhen
    exact .inr ⟨_, .leaveCandidates c n _, .addRounds _ _⟩
  · exact fun r hr => .inl ⟨m, hm, hr⟩

theorem scheduleCandidateBondLess_calm {less : ℕ}
    (h : scheduleCandidateBondLess origin less s = (.ok u, s')) :
    Calm (s.Scheduled (.call origin (.scheduleCandidateBondLess less))) s' := by
  obtain ⟨c, m, rfl, hm, -, rfl⟩ := scheduleCandidateBondLess_ok h
  apply (Calm.refl s).scheduled.storeCandidate
  · exact fun when hwhen => .inl ⟨m, hm, hwhen⟩
  · intro r hr
    obtain rfl := Option.some.inj hr
    exact .inr ⟨_, .candidateBondLess c less _, .addRounds _ _⟩

/-- A request comes behind those that are there. -/
theorem scheduleRequest_calm {m : Move R} {D : Delegator R.Account}
    {request : ScheduledRequest R.Account}
    (hD : s.delegatorState.get d = some D)
    (hrequest : s.Scheduled m (.delegation c request))
    (h : scheduleRequest c D (s.delegationScheduledRequests c) request s = (.ok u, s')) :
    Calm (s.Scheduled m) s' := by
  obtain rfl := Tx.modify_ok.mp h
  have hall : ∀ r ∈ s.delegationScheduledRequests c ++ [request],
      s.Scheduled m (.delegation c r) := by
    intro r hr
    rcases List.mem_append.mp hr with hr | hr
    · exact .inl hr
    · rw [List.mem_singleton.mp hr]
      exact hrequest
  have hstatus : ∀ when, D.status = .leaving when → s.Scheduled m (.leaveDelegators when) :=
    fun when hwhen => .inl ⟨d, D, hD, hwhen⟩
  exact ((Calm.refl s).scheduled.setRequests hall).insertDelegator hstatus

theorem scheduleRevokeDelegation_calm
    (h : scheduleRevokeDelegation origin c s = (.ok u, s')) :
    Calm (s.Scheduled (.call origin (.scheduleRevokeDelegation c))) s' := by
  simp only [scheduleRevokeDelegation, delegationScheduleRevoke, currentRound, readRequests,
    Tx.transactional_run_ok, Tx.read_bind_ok, getOr_bind_ok, ensure_bind_ok, Exec.ok.injEq,
    exists_eq_left'] at h
  obtain ⟨d, hsigned, D, hD, -, a, -, h⟩ := h
  obtain rfl := RawOrigin.ensureSigned_eq_ok.mp hsigned
  exact scheduleRequest_calm hD (.inr ⟨_, .revoke c d a _, .satAddRounds _ _⟩) h

theorem scheduleDelegatorBondLess_calm {less : ℕ}
    (h : scheduleDelegatorBondLess origin c less s = (.ok u, s')) :
    Calm (s.Scheduled (.call origin (.scheduleDelegatorBondLess c less))) s' := by
  simp only [scheduleDelegatorBondLess, delegationScheduleBondDecrease, currentRound, readRequests,
    Tx.transactional_run_ok, Tx.read_bind_ok, getOr_bind_ok, ensure_bind_ok, Exec.ok.injEq,
    exists_eq_left'] at h
  obtain ⟨d, hsigned, D, hD, -, a, -, -, -, -, h⟩ := h
  obtain rfl := RawOrigin.ensureSigned_eq_ok.mp hsigned
  exact scheduleRequest_calm hD (.inr ⟨_, .decrease c d less _, .satAddRounds _ _⟩) h

theorem rescheduleRevoke_calm {when : ℕ} {D D' : Delegator R.Account} {bond : Bond R.Account}
    {requests : List (ScheduledRequest R.Account)} {existing : Bool}
    (h : rescheduleRevoke s d when D bond = (D', requests, existing)) : D'.status = D.status ∧
      ∀ r ∈ requests, r ∈ s.delegationScheduledRequests bond.owner ∨
        r = ⟨d, when, .revoke bond.amount⟩ := by
  unfold rescheduleRevoke at h
  dsimp only at h
  cases hcancel : cancelRequestWithState d D (s.delegationScheduledRequests bond.owner) with
  | some cancelled =>
    obtain ⟨request, D₁, rest⟩ := cancelled
    obtain ⟨hmem, hrest, hstatus⟩ := mem_of_cancelRequest hcancel
    rw [hcancel] at h
    dsimp only at h
    split_ifs at h
    · simp only [Prod.mk.injEq] at h
      obtain ⟨rfl, rfl, -⟩ := h
      refine ⟨hstatus, ?_⟩
      intro r hr
      rcases List.mem_append.mp hr with hr | hr
      · exact .inl (hrest r hr)
      · rw [List.mem_singleton.mp hr]
        exact .inl hmem
    · simp only [Prod.mk.injEq] at h
      obtain ⟨rfl, rfl, -⟩ := h
      refine ⟨hstatus, ?_⟩
      intro r hr
      rcases List.mem_append.mp hr with hr | hr
      · exact .inl (hrest r hr)
      · exact .inr (List.mem_singleton.mp hr)
  | none =>
    rw [hcancel] at h
    simp only [Prod.mk.injEq] at h
    obtain ⟨rfl, rfl, -⟩ := h
    refine ⟨rfl, ?_⟩
    intro r hr
    rcases List.mem_append.mp hr with hr | hr
    · exact .inl hr
    · exact .inr (List.mem_singleton.mp hr)

theorem rescheduleAll_calm {when n : ℕ} {D D' : Delegator R.Account}
    {bonds : List (Bond R.Account)}
    {updated : List (R.Account × List (ScheduledRequest R.Account))}
    (h : rescheduleAll s d when D bonds = (D', updated, n)) : D'.status = D.status ∧
      ∀ x ∈ updated, ∀ r ∈ x.2, r ∈ s.delegationScheduledRequests x.1 ∨
        ∃ a, r = ⟨d, when, .revoke a⟩ := by
  induction bonds generalizing D D' updated n with
  | nil =>
    simp only [rescheduleAll, Prod.mk.injEq] at h
    obtain ⟨rfl, rfl, -⟩ := h
    exact ⟨rfl, by simp⟩
  | cons bond bonds ih =>
    rw [rescheduleAll] at h
    generalize hone : rescheduleRevoke s d when D bond = one at h
    obtain ⟨D₁, requests, existing⟩ := one
    generalize hall : rescheduleAll s d when D₁ bonds = all at h
    obtain ⟨D₂, updated₂, n₂⟩ := all
    simp only [hall, Prod.mk.injEq] at h
    obtain ⟨rfl, rfl, -⟩ := h
    obtain ⟨hstatus, hrequests⟩ := rescheduleRevoke_calm hone
    obtain ⟨hstatus₂, hrest⟩ := ih hall
    refine ⟨hstatus₂.trans hstatus, List.forall_mem_cons.mpr ⟨?_, hrest⟩⟩
    intro r hr
    exact (hrequests r hr).imp_right fun heq => ⟨_, heq⟩

theorem scheduleLeaveDelegators_calm (h : scheduleLeaveDelegators origin s = (.ok u, s')) :
    Calm (s.Scheduled (.call origin .scheduleLeaveDelegators)) s' := by
  simp only [scheduleLeaveDelegators, delegatorScheduleRevokeAll, currentRound,
    Tx.transactional_run_ok, Tx.read_bind_ok, getOr_bind_ok, ensure_bind_ok, Tx.modify_ok,
    Exec.ok.injEq, exists_eq_left'] at h
  obtain ⟨d, hsigned, D, hD, -, rfl⟩ := h
  obtain rfl := RawOrigin.ensureSigned_eq_ok.mp hsigned
  generalize hall : rescheduleAll s d _ _ _ = all
  obtain ⟨D', updated, n⟩ := all
  obtain ⟨hstatus, hrequests⟩ := rescheduleAll_calm hall
  dsimp only
  rw [setAllRequests_delegatorState updated]
  apply ((Calm.refl s).scheduled.setAllRequests _).insertDelegator
  · intro when hwhen
    rw [hstatus] at hwhen
    cases hwhen
  · intro x hx r hr
    rcases hrequests x hx r hr with hr | ⟨a, rfl⟩
    · exact .inl hr
    · exact .inr ⟨_, .leaveDelegators x.1 d a _, .satAddRounds _ _⟩

theorem setTotalSelected_calm {n : ℕ} (h : setTotalSelected origin n s = (.ok u, s')) :
    Calm (s.Scheduled (.call origin (.setTotalSelected n))) s' := by
  obtain rfl := setTotalSelected_ok h
  exact (Calm.refl s).scheduled.behind rfl

theorem setBlocksPerRound_calm {n : ℕ} (h : setBlocksPerRound origin n s = (.ok u, s')) :
    Calm (s.Scheduled (.call origin (.setBlocksPerRound n))) s' := by
  obtain rfl := setBlocksPerRound_ok h
  exact (Calm.refl s).scheduled.behind rfl

theorem Call.dispatch_calm {call : Call R} (h : call.dispatch origin s = (.ok u, s')) :
    Calm (s.Scheduled (.call origin call)) s' := by
  cases call with
  | setTotalSelected => exact setTotalSelected_calm h
  | setBlocksPerRound => exact setBlocksPerRound_calm h
  | joinCandidates => exact (joinCandidates_calm h).scheduled
  | scheduleLeaveCandidates => exact scheduleLeaveCandidates_calm h
  | executeLeaveCandidates => exact (executeLeaveCandidates_calm h).scheduled
  | cancelLeaveCandidates => exact (cancelLeaveCandidates_calm h).scheduled
  | goOffline => exact (goOffline_calm h).scheduled
  | goOnline => exact (goOnline_calm h).scheduled
  | candidateBondMore => exact (candidateBondMore_calm h).scheduled
  | scheduleCandidateBondLess => exact scheduleCandidateBondLess_calm h
  | executeCandidateBondLess => exact (executeCandidateBondLess_calm h).scheduled
  | cancelCandidateBondLess => exact (cancelCandidateBondLess_calm h).scheduled
  | delegate => exact (delegate_calm h).scheduled
  | scheduleLeaveDelegators => exact scheduleLeaveDelegators_calm h
  | executeLeaveDelegators => exact (executeLeaveDelegators_calm h).scheduled
  | cancelLeaveDelegators => exact (cancelLeaveDelegators_calm h).scheduled
  | scheduleRevokeDelegation => exact scheduleRevokeDelegation_calm h
  | delegatorBondMore => exact (delegatorBondMore_calm h).scheduled
  | scheduleDelegatorBondLess => exact scheduleDelegatorBondLess_calm h
  | executeDelegationRequest => exact (executeDelegationRequest_calm h).scheduled
  | cancelDelegationRequest => exact (cancelDelegationRequest_calm h).scheduled

theorem Move.next_calm (s : State R) (m : Move R) : Calm (s.Scheduled m) (m.next s) := by
  cases m with
  | call origin call =>
    show Calm _ (call.dispatch origin s).2
    by_cases hok : ∃ u, (call.dispatch origin s).1 = .ok u
    · obtain ⟨u, hu⟩ := hok
      exact Call.dispatch_calm (Prod.ext hu rfl)
    · rw [Call.dispatch_rollback fun u hu => hok ⟨u, hu⟩]
      exact (Calm.refl s).scheduled
  | block now => exact (Calm.refl s).scheduled.behind rfl
  | other world => exact (Calm.refl s).scheduled.behind rfl

end Schedules

/-- The move begins what waits. -/
def Move.Begins (m : Move R) (s : State R) (p : Unstaking R) : Prop :=
  ¬ s.Waiting p ∧ (m.next s).Waiting p

/-- It waits, and has waited since a call that meets `made` scheduled it, at least `delay` rounds
ago. -/
def Waited (made : Move R → Prop) (delay : ℕ) (tr : List (State R × Move R)) (s : State R)
    (p : Unstaking R) : Prop :=
  s.Waiting p ∧ Since (fun s₀ m => m.Begins s₀ p ∧ made m ∧
    s₀.round.current + delay ≤ s.round.current) (fun s => s.Waiting p) tr

/-- The delay of the kind of a request; the one of a decrease is a constant that no call reads. -/
def DelegationAction.delay (R : Runtime) (delegationBondLessDelay : ℕ) : DelegationAction → ℕ
  | .revoke _ => R.revokeDelegationDelay
  | .decrease _ => delegationBondLessDelay

/-- Whatever the call executes has waited for the delay of its kind. Where a delegator leaves, each
delegation has waited for the delay of the exit, unless it was being revoked by itself. -/
structure Respects (delegationBondLessDelay : ℕ) (tr : List (State R × Move R)) (s : State R)
    (call : Call R) : Prop where
  leaveCandidates : ∀ c n, call = .executeLeaveCandidates c n → ∃ when,
    Waited (fun m => ∃ n, m = .call (.signed c) (.scheduleLeaveCandidates n))
      R.leaveCandidatesDelay tr s (.leaveCandidates c when)
  candidateBondLess : ∀ c, call = .executeCandidateBondLess c → ∃ request,
    Waited (fun m => m = .call (.signed c) (.scheduleCandidateBondLess request.amount))
      R.candidateBondLessDelay tr s (.candidateBondLess c request)
  delegation : ∀ d c, call = .executeDelegationRequest d c → ∃ request rest,
    takeRequest d (s.delegationScheduledRequests c) = some (request, rest) ∧
      Waited (fun m => ∃ read, Schedules m (.delegation c request) read)
        (request.action.delay R delegationBondLessDelay) tr s (.delegation c request)
  leaveDelegators : ∀ d n, call = .executeLeaveDelegators d n → ∃ D,
    s.delegatorState.get d = some D ∧ ∀ bond ∈ D.delegations, ∃ request rest,
      takeRevoke d (s.delegationScheduledRequests bond.owner) = some (request, rest) ∧
        (Waited (fun m => m = .call (.signed d) .scheduleLeaveDelegators)
            R.leaveDelegatorsDelay tr s (.delegation bond.owner request) ∨
          Waited (fun m => m = .call (.signed d) (.scheduleRevokeDelegation bond.owner))
            R.revokeDelegationDelay tr s (.delegation bond.owner request))

/-- The call goes through. -/
def Call.Accepted (call : Call R) (origin : Origin R) (s : State R) : Prop :=
  ∃ u, (call.dispatch origin s).1 = .ok u

/-- Every accepted call of a run respects the delays. -/
def DelaysRespected (delegationBondLessDelay : ℕ) (tr : List (State R × Move R)) : Prop :=
  Throughout (fun tr₁ s m => ∀ origin call, m = .call origin call → call.Accepted origin s →
    Respects delegationBondLessDelay tr₁ s call) tr

/-- The delay that a scheduling call reads. -/
def Call.readDelay : Call R → Option ℕ
  | .scheduleLeaveCandidates _ => some R.leaveCandidatesDelay
  | .scheduleCandidateBondLess _ => some R.candidateBondLessDelay
  | .scheduleRevokeDelegation _ => some R.revokeDelegationDelay
  | .scheduleDelegatorBondLess _ _ => some R.revokeDelegationDelay
  | .scheduleLeaveDelegators => some R.leaveDelegatorsDelay
  | _ => none

/-- What a call schedules is due no later than the last round, a decrease not before its own delay,
and a revoke that an exit made is executed by itself only if the delay of the exit is not shorter
than the one of a revoke. -/
structure Unhurried (delegationBondLessDelay : ℕ) (tr : List (State R × Move R)) (s : State R)
    (m : Move R) : Prop where
  fits : ∀ origin call delay, m = .call origin call → call.Accepted origin s →
    call.readDelay = some delay → s.round.current + delay < 2 ^ 32
  decrease : ∀ origin c less, m = .call origin (.scheduleDelegatorBondLess c less) →
    (Call.scheduleDelegatorBondLess c less).Accepted origin s →
      delegationBondLessDelay ≤ R.revokeDelegationDelay
  revoke : ∀ origin d c request rest, m = .call origin (.executeDelegationRequest d c) →
    (Call.executeDelegationRequest d c).Accepted origin s →
    takeRequest d (s.delegationScheduledRequests c) = some (request, rest) →
    Since (fun s₀ m₀ => m₀.Begins s₀ (.delegation c request) ∧
      m₀ = .call (.signed d) .scheduleLeaveDelegators)
      (fun s => s.Waiting (.delegation c request)) tr →
    R.revokeDelegationDelay ≤ R.leaveDelegatorsDelay

section Runs
variable {delegationBondLessDelay : ℕ} {s : State R} {world : R.World}
  {tr : List (State R × Move R)} {c d : R.Account}

theorem not_waiting_genesis (p : Unstaking R) : ¬ (State.genesis world).Waiting p := by
  intro hp
  cases p with
  | leaveCandidates => obtain ⟨m, hm, -⟩ := hp; cases hm
  | candidateBondLess => obtain ⟨m, hm, -⟩ := hp; cases hm
  | delegation => cases hp
  | leaveDelegators => obtain ⟨d, D, hD, -⟩ := hp; cases hD

/-- What waits was scheduled. -/
theorem Runs.scheduled (h : Runs (State.genesis world) tr s) {p : Unstaking R}
    (hp : s.Waiting p) : Since (fun s₀ m => m.Begins s₀ p ∧ ∃ delay, Schedules m p delay ∧
      After s₀.round.current delay p.when) (fun s => s.Waiting p) tr := by
  apply (Run.since h (not_waiting_genesis p) hp).mono
  intro s₀ m ⟨hnot, hnext⟩
  exact ⟨⟨hnot, hnext⟩, (Move.next_calm s₀ m p hnext).resolve_left hnot⟩

theorem Schedules.readDelay {m : Move R} {p : Unstaking R} {delay : ℕ} (h : Schedules m p delay) :
    ∃ origin call, m = .call origin call ∧ call.readDelay = some delay := by
  cases h <;> exact ⟨_, _, rfl, rfl⟩

/-- A call that begins something is accepted. -/
theorem Move.Begins.accepted {origin : Origin R} {call : Call R} {p : Unstaking R}
    (h : (Move.call origin call).Begins s p) : call.Accepted origin s := by
  by_contra hno
  have hsame : (Move.call origin call).next s = s :=
    Call.dispatch_rollback fun u hu => hno ⟨u, hu⟩
  apply h.1
  rw [← hsame]
  exact h.2

/-- In a run that does not hurry, what waits was scheduled by an accepted call that read a delay,
and it is due that long after. -/
theorem Runs.scheduled_due (h : Runs (State.genesis world) tr s)
    (hcond : Throughout (Unhurried delegationBondLessDelay) tr) {p : Unstaking R}
    (hp : s.Waiting p) : Since (fun s₀ m => m.Begins s₀ p ∧ (∃ delay, Schedules m p delay ∧
      p.when = s₀.round.current + delay) ∧ ∃ tr₀, Unhurried delegationBondLessDelay tr₀ s₀ m)
      (fun s => s.Waiting p) tr := by
  obtain ⟨tr₁, s₀, m, tr₂, rfl, ⟨hbegins, delay, hschedules, hafter⟩, hall⟩ := h.scheduled hp
  have hm := hcond tr₁ s₀ m tr₂ rfl
  refine ⟨tr₁, s₀, m, tr₂, rfl, ⟨hbegins, ⟨delay, hschedules, ?_⟩, tr₁, hm⟩, hall⟩
  obtain ⟨origin, call, rfl, hread⟩ := hschedules.readDelay
  exact hafter.eq (hm.fits origin call delay rfl hbegins.accepted hread)

/-- Nobody has the deprecated status. -/
theorem Runs.not_leaving (h : Runs (State.genesis world) tr s) (when : ℕ) :
    ¬ s.Waiting (.leaveDelegators when) := by
  intro hp
  obtain ⟨_, _, _, _, -, ⟨-, _, hschedules, -⟩, -⟩ := h.scheduled hp
  cases hschedules

section Due
variable {origin : Origin R} {u : PUnit} {s' : State R}

theorem executeLeaveCandidates_due {n : ℕ}
    (h : executeLeaveCandidates origin c n s = (.ok u, s')) :
    ∃ when, s.Waiting (.leaveCandidates c when) ∧ when ≤ s.round.current := by
  obtain ⟨m, when, _, _, _, _, hm, hstatus, hdue, -⟩ := executeLeaveCandidates_ok h
  exact ⟨when, ⟨m, hm, hstatus⟩, hdue⟩

theorem executeCandidateBondLess_due
    (h : executeCandidateBondLess origin c s = (.ok u, s')) :
    ∃ request, s.Waiting (.candidateBondLess c request) ∧
      request.whenExecutable ≤ s.round.current := by
  obtain ⟨m, _, r, hm, hr, hdue, -⟩ := executeCandidateBondLess_ok h
  exact ⟨r, ⟨m, hm, hr⟩, hdue⟩

theorem executeDelegationRequest_taken
    (h : executeDelegationRequest origin d c s = (.ok u, s')) : ∃ request rest,
      takeRequest d (s.delegationScheduledRequests c) = some (request, rest) ∧
        request.whenExecutable ≤ s.round.current := by
  obtain ⟨_, _, request, rest, -, -, htake, hdue, -⟩ := executeDelegationRequest_ok h
  exact ⟨request, rest, htake, hdue⟩

theorem executeLeaveDelegators_due {n : ℕ}
    (h : executeLeaveDelegators origin d n s = (.ok u, s'))
    (hactive : ∀ when, ¬ s.Waiting (.leaveDelegators when)) :
    ∃ D, s.delegatorState.get d = some D ∧ ∀ bond ∈ D.delegations, ∃ request rest,
      takeRevoke d (s.delegationScheduledRequests bond.owner) = some (request, rest) ∧
        request.whenExecutable ≤ s.round.current := by
  obtain ⟨D, hD, ⟨when, _, hstatus, -⟩ | ⟨_, _, _, _, -, hvalidate, -⟩⟩ :=
    executeLeaveDelegators_cases h
  · exact absurd ⟨d, D, hD, hstatus⟩ (hactive when)
  · exact ⟨D, hD, (validateRevokes_due hvalidate).2.1⟩

theorem takeRevoke_isRevoke {requests rest : List (ScheduledRequest R.Account)}
    {request : ScheduledRequest R.Account} (h : takeRevoke d requests = some (request, rest)) :
    request ∈ requests ∧ request.delegator = d ∧ request.action.isRevoke = true := by
  obtain ⟨r, hfind, heq⟩ := Option.map_eq_some_iff.mp h
  obtain ⟨rfl, -⟩ := Prod.mk.inj heq
  have hr := List.find?_some hfind
  rw [Bool.and_eq_true] at hr
  exact ⟨List.mem_of_find?_eq_some hfind, of_decide_eq_true hr.1, hr.2⟩

end Due

section Unhurried
variable (h : Runs (State.genesis world) tr s)
  (hcond : Throughout (Unhurried delegationBondLessDelay) tr)
include h hcond

theorem Runs.leaveCandidates_waited {when : ℕ} (hp : s.Waiting (.leaveCandidates c when))
    (hdue : when ≤ s.round.current) :
    Waited (fun m => ∃ n, m = .call (.signed c) (.scheduleLeaveCandidates n))
      R.leaveCandidatesDelay tr s (.leaveCandidates c when) := by
  refine ⟨hp, (h.scheduled_due hcond hp).mono ?_⟩
  rintro s₀ m ⟨hbegins, ⟨delay, hschedules, hwhen⟩, -⟩
  cases hschedules with
  | leaveCandidates c n when => exact ⟨hbegins, ⟨n, rfl⟩, hwhen ▸ hdue⟩

theorem Runs.candidateBondLess_waited {request : CandidateBondLessRequest}
    (hp : s.Waiting (.candidateBondLess c request))
    (hdue : request.whenExecutable ≤ s.round.current) :
    Waited (fun m => m = .call (.signed c) (.scheduleCandidateBondLess request.amount))
      R.candidateBondLessDelay tr s (.candidateBondLess c request) := by
  refine ⟨hp, (h.scheduled_due hcond hp).mono ?_⟩
  rintro s₀ m ⟨hbegins, ⟨delay, hschedules, hwhen⟩, -⟩
  cases hschedules with
  | candidateBondLess c less when => exact ⟨hbegins, rfl, hwhen ▸ hdue⟩

/-- A request that is executed by itself. -/
theorem Runs.delegation_waited {origin : Origin R} {request : ScheduledRequest R.Account}
    {rest : List (ScheduledRequest R.Account)}
    (hm : Unhurried delegationBondLessDelay tr s (.call origin (.executeDelegationRequest d c)))
    (hok : (Call.executeDelegationRequest d c).Accepted origin s)
    (htake : takeRequest d (s.delegationScheduledRequests c) = some (request, rest))
    (hdue : request.whenExecutable ≤ s.round.current) :
    Waited (fun m => ∃ read, Schedules m (.delegation c request) read)
      (request.action.delay R delegationBondLessDelay) tr s (.delegation c request) := by
  have hp : s.Waiting (.delegation c request) := (takeRequest_eq_some htake).1
  have hd : request.delegator = d := (takeRequest_eq_some htake).2.1
  obtain ⟨tr₁, s₀, m, tr₂, htr, ⟨hbegins, ⟨delay, hschedules, hwhen⟩, tr₀, hm₀⟩, hall⟩ :=
    h.scheduled_due hcond hp
  refine ⟨hp, tr₁, s₀, m, tr₂, htr, ⟨hbegins, ⟨delay, hschedules⟩, ?_⟩, hall⟩
  have hsum : s₀.round.current + delay ≤ s.round.current := hwhen ▸ hdue
  cases hschedules with
  | revoke c e a when => exact hsum
  | decrease c e less when =>
    have hle := hm₀.decrease _ _ _ rfl hbegins.accepted
    exact (Nat.add_le_add_left hle _).trans hsum
  | leaveDelegators c e a when =>
    obtain rfl : e = d := hd
    have hle := hm.revoke _ _ _ _ _ rfl hok htake ⟨tr₁, s₀, _, tr₂, htr, ⟨hbegins, rfl⟩, hall⟩
    exact (Nat.add_le_add_left hle _).trans hsum

/-- A request that is executed as part of an exit. -/
theorem Runs.revoke_waited {request : ScheduledRequest R.Account}
    {rest : List (ScheduledRequest R.Account)}
    (htake : takeRevoke d (s.delegationScheduledRequests c) = some (request, rest))
    (hdue : request.whenExecutable ≤ s.round.current) :
    Waited (fun m => m = .call (.signed d) .scheduleLeaveDelegators)
        R.leaveDelegatorsDelay tr s (.delegation c request) ∨
      Waited (fun m => m = .call (.signed d) (.scheduleRevokeDelegation c))
        R.revokeDelegationDelay tr s (.delegation c request) := by
  obtain ⟨hmem, hd, hrevoke⟩ := takeRevoke_isRevoke htake
  have hp : s.Waiting (.delegation c request) := hmem
  obtain ⟨tr₁, s₀, m, tr₂, htr, ⟨hbegins, ⟨delay, hschedules, hwhen⟩, -⟩, hall⟩ :=
    h.scheduled_due hcond hp
  have hsum : s₀.round.current + delay ≤ s.round.current := hwhen ▸ hdue
  cases hschedules with
  | revoke c e a when =>
    obtain rfl : e = d := hd
    exact .inr ⟨hp, tr₁, s₀, _, tr₂, htr, ⟨hbegins, rfl, hsum⟩, hall⟩
  | decrease => cases hrevoke
  | leaveDelegators c e a when =>
    obtain rfl : e = d := hd
    exact .inl ⟨hp, tr₁, s₀, _, tr₂, htr, ⟨hbegins, rfl, hsum⟩, hall⟩

/-- In a run that does not hurry, a call respects the delays. -/
theorem Runs.respects {origin : Origin R} {call : Call R} (hok : call.Accepted origin s)
    (hm : Unhurried delegationBondLessDelay tr s (.call origin call)) :
    Respects delegationBondLessDelay tr s call := by
  obtain ⟨u, hu⟩ := hok
  have hrun := Tx.run_of_fst hu
  constructor
  · rintro c n rfl
    obtain ⟨when, hp, hdue⟩ := executeLeaveCandidates_due hrun
    exact ⟨when, h.leaveCandidates_waited hcond hp hdue⟩
  · rintro c rfl
    obtain ⟨request, hp, hdue⟩ := executeCandidateBondLess_due hrun
    exact ⟨request, h.candidateBondLess_waited hcond hp hdue⟩
  · rintro d c rfl
    obtain ⟨request, rest, htake, hdue⟩ := executeDelegationRequest_taken hrun
    exact ⟨request, rest, htake, h.delegation_waited hcond hm ⟨u, hu⟩ htake hdue⟩
  · rintro d n rfl
    obtain ⟨D, hD, hall⟩ := executeLeaveDelegators_due hrun h.not_leaving
    refine ⟨D, hD, ?_⟩
    intro bond hbond
    obtain ⟨request, rest, htake, hdue⟩ := hall bond hbond
    exact ⟨request, rest, htake, h.revoke_waited hcond htake hdue⟩

end Unhurried

end Runs

section Witness
open Staking.Sample

/-- A decrease of a delegation is scheduled, and executed in the next round. -/
def hasty : List (Move (runtime 1)) :=
  [user 1 (.joinCandidates 10 0), user 3 (.delegate (1 : ℕ) 20 0 0),
    user 3 (.scheduleDelegatorBondLess (1 : ℕ) 4), .block 10,
    user 3 (.executeDelegationRequest (3 : ℕ) (1 : ℕ))]

/-- Then the delegator leaves, and the candidate. -/
def exits : List (Move (runtime 1)) :=
  hasty ++ [user 3 .scheduleLeaveDelegators, user 1 (.scheduleLeaveCandidates 1), .block 20,
    user 3 (.executeLeaveDelegators (3 : ℕ) 1), user 1 (.executeLeaveCandidates (1 : ℕ) 0)]

/-- With all delays of one round nothing hurries. -/
theorem unhurried_sample {tr : List (State (runtime 1) × Move (runtime 1))} {s : State (runtime 1)}
    (m : Move (runtime 1)) (hround : s.round.current < 100) : Unhurried 1 tr s m := by
  refine ⟨?_, fun _ _ _ _ _ => Nat.le_refl 1, fun _ _ _ _ _ _ _ _ _ => Nat.le_refl 1⟩
  intro origin call delay _ _ hread
  have hdelay : delay = 1 := by
    cases call <;> first | exact (Option.some.inj hread).symm | cases hread
  omega

/-- A candidate has to wait for the largest number of rounds. -/
def endless : Runtime := { runtime 1 with leaveCandidatesDelay := 2 ^ 32 - 1 }

/-- It leaves in the round in which it schedules to. -/
def wrapped : List (Move endless) :=
  [.call (.signed (1 : ℕ)) (.joinCandidates 10 0),
    .call (.signed (1 : ℕ)) (.scheduleLeaveCandidates 1),
    .call (.signed (1 : ℕ)) (.executeLeaveCandidates (1 : ℕ) 0)]

end Witness
end Staking
end ZkNft
