import ZkNft.Staking.Departing

/-! A candidate that has scheduled to leave can leave when the delay is over, and every delegator of
it gets its delegation back then. -/

namespace ZkNft
namespace Staking
open Keyed StorageMap

variable {R : Runtime}

/-- If the candidate is still there, it is leaving, and can go from round `deadline` on. -/
def Retiring (s : State R) (c : R.Account) (deadline : ℕ) : Prop :=
  ∀ m, s.candidateInfo.get c = some m → m.status = .leaving deadline

/-- No candidate has come, and none has got another status. -/
def StatusKept (s s' : State R) : Prop :=
  ∀ c m', s'.candidateInfo.get c = some m' →
    ∃ m, s.candidateInfo.get c = some m ∧ m'.status = m.status

/-- The candidate stays after all, or joins once more when it has left. -/
inductive Resumes (c : R.Account) : Move R → Prop where
  | cancelLeave (n : ℕ) : Resumes c (.call (.signed c) (.cancelLeaveCandidates n))
  | join (bond n : ℕ) : Resumes c (.call (.signed c) (.joinCandidates bond n))

section StatusKept
variable {s s₁ s' : State R} {c d : R.Account} {m m' : CandidateMetadata} {u : PUnit}

theorem StatusKept.of_info (h : s'.candidateInfo = s.candidateInfo) : StatusKept s s' := by
  intro c m' hm'
  rw [h] at hm'
  exact ⟨m', hm', rfl⟩

theorem StatusKept.trans (h : StatusKept s s₁) (h' : StatusKept s₁ s') : StatusKept s s' := by
  intro c m' hm'
  obtain ⟨m₁, hm₁, hstatus⟩ := h' c m' hm'
  obtain ⟨m, hm, hstatus'⟩ := h c m₁ hm₁
  exact ⟨m, hm, hstatus.trans hstatus'⟩

theorem StatusKept.insert (hm : s.candidateInfo.get c = some m)
    (hinfo : s'.candidateInfo = s.candidateInfo.insert c m') (hstatus : m'.status = m.status) :
    StatusKept s s' := by
  unfold StatusKept
  rw [hinfo]
  apply forall_insert
  · exact ⟨m, hm, hstatus⟩
  · exact fun b m₁ _ hm₁ => ⟨m₁, hm₁, rfl⟩

theorem StatusKept.remove (hinfo : s'.candidateInfo = s.candidateInfo.remove c) :
    StatusKept s s' := by
  unfold StatusKept
  rw [hinfo]
  exact forall_remove fun b m₁ _ hm₁ => ⟨m₁, hm₁, rfl⟩

theorem Rework.statusKept {o n : List (Bond R.Account)} (w : Rework s c o n)
    (hinfo : s'.candidateInfo = w.result.candidateInfo) : StatusKept s s' :=
  .insert w.info hinfo w.relists.status

theorem Retiring.statusKept {deadline : ℕ} (h : Retiring s c deadline) (hs : StatusKept s s') :
    Retiring s' c deadline := by
  intro m' hm'
  obtain ⟨m, hm, hstatus⟩ := hs c m' hm'
  rw [hstatus]
  exact h m hm

theorem leaveOrLog_statusKept {a : ℕ} (h : leaveOrLog c d a s = (.ok u, s')) : StatusKept s s' := by
  rcases (delegatorLeavesCandidate_clean c d a).recover_ok h with h | h
  · obtain ⟨m, hm, h⟩ := getOr_bind_ok.mp h
    obtain ⟨m', s₁, hrm, h⟩ := Tx.bind_run_ok.mp h
    obtain rfl := Tx.modify_ok.mp h
    have hrecounted := rmDelegationIfExists_recounted hrm
    exact .insert hm (congrArg (StorageMap.insert · c m') hrecounted.info) hrecounted.status
  · obtain ⟨-, rfl⟩ := Tx.pure_ok.mp h
    exact .of_info rfl

theorem leaveAll_statusKept {bonds : List (Bond R.Account)}
    (h : leaveAll d bonds s = (.ok u, s')) : StatusKept s s' := by
  induction bonds generalizing s with
  | nil =>
    obtain ⟨-, rfl⟩ := Tx.pure_ok.mp h
    exact .of_info rfl
  | cons bond bonds ih =>
    obtain ⟨_, s₁, hleave, h⟩ := Tx.bind_run_ok.mp h
    exact (leaveOrLog_statusKept hleave).trans (ih h)

end StatusKept

section Calls
variable {s s' : State R} {c : R.Account} {u : PUnit} {origin : Origin R} {deadline : ℕ}

/-- Only the candidate itself changes its status, and not to one that it has. -/
theorem Retiring.insert {e : R.Account} {m m' : CandidateMetadata} (h : Retiring s c deadline)
    (hm : s.candidateInfo.get e = some m) (hnot : m.isLeaving = false)
    (hinfo : s'.candidateInfo = s.candidateInfo.insert e m') : Retiring s' c deadline := by
  intro m₁ hm₁
  rw [hinfo] at hm₁
  by_cases hc : c = e
  · have hstatus := h m (hc ▸ hm)
    rw [CandidateMetadata.isLeaving, hstatus] at hnot
    cases hnot
  · rw [get_insert_of_ne _ _ hc] at hm₁
    exact h m₁ hm₁

theorem offDelegators_info : OffDelegators (State.candidateInfo (R := R)) := fun _ _ _ _ => rfl

theorem signed_statusKept {f : R.Account → Update R PUnit}
    (hf : ∀ who, (f who).Keeps State.candidateInfo)
    (h : Tx.transactional (Tx.read (fun _ => ensureSigned origin) >>= f) s = (.ok u, s')) :
    StatusKept s s' :=
  .of_info (Tx.Keeps.run (.transactional (.bind (.read _) hf)) h)

variable (hR : R.Placed) (hs : Books s)
include hs

theorem executeLeaveDelegators_statusKept {d : R.Account} {n : ℕ}
    (h : executeLeaveDelegators origin d n s = (.ok u, s')) : StatusKept s s' := by
  obtain ⟨D, hD, hcases⟩ := executeLeaveDelegators_cases h
  have hactive := (hs.delegators d D hD).status
  rcases hcases with ⟨when, _, hwhen, -⟩ | ⟨validated, s₁, s₂, s₃, -, hvalid, hleave, hlock, rfl⟩
  · rw [hactive] at hwhen
    cases hwhen
  · obtain ⟨rfl, -, -⟩ := validateRevokes_ok (fun c => (hs.requests c).distinct) hvalid
    apply (leaveAll_statusKept hleave).trans
    rw [adjustBondLock_decrease] at hlock
    obtain rfl := (Prod.mk.inj hlock).2
    obtain ⟨requests, hset, -⟩ := setAllRequests_eq (s := { s₂ with
      world := R.relock s₂.world { D with total := D.total - D.total } })
      (validated.map fun x => (x.1.owner, x.2))
    rw [hset]
    exact .of_info rfl

include hR

theorem executeDelegationRequest_statusKept {d : R.Account}
    (h : executeDelegationRequest origin d c s = (.ok u, s')) : StatusKept s s' := by
  obtain ⟨who, D, request, rest, -, hD, htake, -, ⟨a, haction, h⟩ | ⟨less, haction, h⟩⟩ :=
    executeDelegationRequest_ok h
  · obtain ⟨w, v, -, rfl⟩ := executeRevoke_dropped hR hs hD htake haction h
    exact w.statusKept rfl
  · obtain ⟨-, -, rfl⟩ := takeRequest_eq_some htake
    obtain ⟨a, _, _, _, _, _, hbond, hless, hmin, hmin', -⟩ := executeDecrease_ok h
    have hmem := (getBondAmount_eq_some (hs.delegators d D hD).ordered.oneEach).mp hbond
    obtain ⟨s₁, hrun, hdecreased⟩ := executeDecrease_run hR hs hD hmem hless hmin hmin'
    rw [h] at hrun
    obtain rfl := (Prod.mk.inj hrun).2
    obtain ⟨w, _, -, -, -, -, -, rfl⟩ := hdecreased.out
    exact w.statusKept rfl

theorem delegate_statusKept {a n k : ℕ} (hfree : ∀ w a, R.freeBalance w a ≤ maxBalance)
    (h : delegate origin c a n k s = (.ok u, s')) : StatusKept s s' := by
  obtain ⟨d, m, m', top, bottom, less, s₁, D, -, hm, htop, hbottom, hadded, -, -, -, -, -, -,
    rfl⟩ := delegate_added hR hs hfree h
  obtain ⟨_, _, _, -, w, hstored, -, -, -⟩ := hadded.rework htop hbottom hm
  exact w.statusKept hstored.info

theorem Call.dispatch_retiring {call : Call R} (hfree : ∀ w a, R.freeBalance w a ≤ maxBalance)
    (h : call.dispatch origin s = (.ok u, s')) (hkeeps : ¬ Resumes c (.call origin call))
    (hc : Retiring s c deadline) : Retiring s' c deadline := by
  cases call with
  | setTotalSelected =>
    obtain rfl := setTotalSelected_ok h
    exact hc
  | setBlocksPerRound =>
    obtain rfl := setBlocksPerRound_ok h
    exact hc
  | joinCandidates bond n =>
    obtain ⟨e, pool, world, rfl, -, -, -, -, -, rfl⟩ := joinCandidates_ok h
    have hce : c ≠ e := by
      rintro rfl
      exact hkeeps (.join bond n)
    intro m hm
    exact hc m ((get_insert_of_ne _ _ hce).symm.trans hm)
  | scheduleLeaveCandidates =>
    obtain ⟨e, m, -, hm, hnot, hstore⟩ := scheduleLeaveCandidates_ok h
    obtain ⟨pool, rfl⟩ := storeRemoved_eq hstore
    exact hc.insert hm hnot rfl
  | executeLeaveCandidates =>
    obtain ⟨_, _, _, _, _, _, -, -, -, -, rfl⟩ := executeLeaveCandidates_returned hs h
    exact hc.statusKept (.remove rfl)
  | cancelLeaveCandidates n =>
    obtain ⟨e, m, rfl, hm, hstore⟩ := cancelLeaveCandidates_ok h
    obtain ⟨pool, rfl⟩ := storeInserted_eq hstore
    have hce : c ≠ e := by
      rintro rfl
      exact hkeeps (.cancelLeave n)
    intro m hm
    exact hc m ((get_insert_of_ne _ _ hce).symm.trans hm)
  | goOffline =>
    obtain ⟨e, m, hm, hactive, hstore⟩ := goOffline_ok h
    obtain ⟨pool, rfl⟩ := storeRemoved_eq hstore
    apply hc.insert hm _ rfl
    rw [CandidateMetadata.isLeaving, isActive_iff.mp hactive]
  | goOnline =>
    obtain ⟨e, m, hm, hnot, hstore⟩ := goOnline_ok h
    obtain ⟨pool, rfl⟩ := storeInserted_eq hstore
    exact hc.insert hm hnot rfl
  | candidateBondMore =>
    obtain ⟨_, m, _, hm, -, rfl, rfl⟩ := candidateBondMore_ok h
    exact hc.statusKept (.insert hm rfl rfl)
  | scheduleCandidateBondLess =>
    obtain ⟨_, m, -, hm, -, rfl⟩ := scheduleCandidateBondLess_ok h
    exact hc.statusKept (.insert hm rfl rfl)
  | executeCandidateBondLess =>
    obtain ⟨m, _, _, hm, -, -, rfl, rfl⟩ := executeCandidateBondLess_ok h
    exact hc.statusKept (.insert hm rfl rfl)
  | cancelCandidateBondLess =>
    obtain ⟨_, m, hm, rfl⟩ := cancelCandidateBondLess_ok h
    exact hc.statusKept (.insert hm rfl rfl)
  | delegate => exact hc.statusKept (delegate_statusKept hR hs hfree h)
  | scheduleLeaveDelegators =>
    exact hc.statusKept (signed_statusKept (delegatorScheduleRevokeAll_keeps offDelegators_info) h)
  | executeLeaveDelegators => exact hc.statusKept (executeLeaveDelegators_statusKept hs h)
  | cancelLeaveDelegators =>
    exact hc.statusKept
      (signed_statusKept (delegatorCancelScheduledRevokeAll_keeps offDelegators_info) h)
  | scheduleRevokeDelegation =>
    exact hc.statusKept (signed_statusKept (delegationScheduleRevoke_keeps offDelegators_info _) h)
  | delegatorBondMore =>
    obtain ⟨_, _, _, _, w, -, -, -, -, -, rfl⟩ := delegatorBondMore_increased hR hs hfree h
    exact hc.statusKept (w.statusKept rfl)
  | scheduleDelegatorBondLess =>
    exact hc.statusKept (signed_statusKept
      (fun d => delegationScheduleBondDecrease_keeps offDelegators_info _ d _) h)
  | executeDelegationRequest => exact hc.statusKept (executeDelegationRequest_statusKept hR hs h)
  | cancelDelegationRequest =>
    exact hc.statusKept (signed_statusKept (delegationCancelRequest_keeps offDelegators_info _) h)

theorem Move.next_retiring {m : Move R} (hfree : ∀ w a, R.freeBalance w a ≤ maxBalance)
    (hkeeps : ¬ Resumes c m) (hc : Retiring s c deadline) : Retiring (m.next s) c deadline := by
  cases m with
  | call origin call =>
    show Retiring (call.dispatch origin s).2 c deadline
    by_cases hok : ∃ u, (call.dispatch origin s).1 = .ok u
    · obtain ⟨u, hu⟩ := hok
      exact call.dispatch_retiring hR hs hfree (Prod.ext hu rfl) hkeeps hc
    · rw [Call.dispatch_rollback fun u hu => hok ⟨u, hu⟩]
      exact hc
  | block => exact hc
  | other => exact hc

end Calls

section Leaves
variable {s s' : State R} {c : R.Account} {deadline : ℕ}

/-- The state of `s'` without the candidate: its delegators have their delegations back, the
requests on them are gone, and the other candidates are as before. -/
structure Retired (s s' : State R) (c : R.Account) : Prop where
  candidate : s'.candidateInfo.get c = none
  lists : s'.delegationsTo c = []
  requests : s'.delegationScheduledRequests c = []
  delegations : ∀ d x, x ∈ s'.delegationsOf d ↔ x ∈ s.delegationsOf d ∧ x.owner ≠ c
  unlocked : R.Locking → R.lock s'.world .collator c = none
  others : ∀ b, b ≠ c → s'.candidateInfo.get b = s.candidateInfo.get b ∧
    s'.delegationsTo b = s.delegationsTo b ∧
    s'.delegationScheduledRequests b = s.delegationScheduledRequests b

variable (hs : Books s)
include hs

theorem executeLeaveCandidates_run {n : ℕ} {m : CandidateMetadata} (who : R.Account)
    (hm : s.candidateInfo.get c = some m) (hstatus : m.status = .leaving deadline)
    (hdue : deadline ≤ s.round.current) (hn : m.delegationCount ≤ n) :
    ∃ s', executeLeaveCandidates (.signed who) c n s = (.ok ⟨⟩, s') := by
  obtain ⟨top, bottom, htop, hbottom, -, -⟩ := hs.candidates.lists hm
  obtain ⟨D, Q, w, D', Q', w', hrun, hrun', -⟩ := returnStakes_both hs hm htop hbottom
  have hleave : m.canLeave s.round.current = .ok ⟨⟩ := by
    unfold CandidateMetadata.canLeave
    rw [hstatus]
    exact if_pos hdue
  apply Exists.intro
  unfold executeLeaveCandidates
  rw [Tx.transactional_run_ok, Tx.read_bind_ok]
  refine ⟨who, rfl, ?_⟩
  rw [getOr_bind hm, ensure_bind (decide_eq_true hn), Tx.read_bind_ok]
  refine ⟨⟨⟩, Exec.lift_eq_ok.mpr (Exec.except_mapError_eq_ok.mpr hleave), ?_⟩
  rw [getOr_bind htop, Tx.modify_bind_ok]
  refine (Tx.bind_run_of_ok hrun).trans ?_
  have hget : (fun s : State R => s.bottomDelegations.get c) { s.settled D Q w with
      topDelegations := s.topDelegations.remove c } = some bottom := hbottom
  rw [getOr_bind hget, Tx.modify_bind_ok]
  exact (Tx.bind_run_of_ok hrun').trans rfl

theorem executeLeaveCandidates_retired {origin : Origin R} {n : ℕ} {u : PUnit}
    (h : executeLeaveCandidates origin c n s = (.ok u, s')) : Retired s s' c := by
  obtain ⟨m, top, bottom, delegators, requests, world, hm, htop, hbottom, hreturned, rfl⟩ :=
    executeLeaveCandidates_returned hs h
  refine ⟨get_remove_self _ _, ?_, setRequests_self, ?_, fun hL => hL.removeLock_self _ _ _, ?_⟩
  · rw [State.delegationsTo, get_remove_self, get_remove_self]
    rfl
  · intro d x
    show x ∈ (s.settled delegators requests world).delegationsOf d ↔ _
    rw [hreturned.mem_delegationsOf]
    have howner : x ∈ s.delegationsOf d → x.owner = c →
        d ∈ (top.delegations ++ bottom.delegations).map Bond.owner := by
      rintro hx rfl
      have hto := (hs.agree x.owner d x.amount).mpr hx
      rw [delegationsTo_eq htop hbottom] at hto
      exact List.mem_map.mpr ⟨_, hto, rfl⟩
    tauto
  · intro b hb
    refine ⟨get_remove_of_ne _ hb, ?_, ?_⟩
    · rw [State.delegationsTo, get_remove_of_ne _ hb, get_remove_of_ne _ hb]
      rfl
    · exact (setRequests_other hb).trans (hreturned.requests b hb)

end Leaves

section Runs
variable {s₀ s₁ s : State R} {tr₀ tr : List (State R × Move R)} {c : R.Account} {deadline : ℕ}
  (hR : R.Placed) (hfree : ∀ w a, R.freeBalance w a ≤ maxBalance)
include hR hfree

/-- As long as it does not resume, the candidate stays ready to leave, or has left. -/
theorem Runs.retiring (h : Runs s₁ tr s) (hs : Books s₁) (hc : Retiring s₁ c deadline)
    (hkeeps : ∀ x ∈ tr, ¬ Resumes c x.2) : Books s ∧ Retiring s c deadline := by
  induction h with
  | nil => exact ⟨hs, hc⟩
  | @snoc tr s m _ _ ih =>
    obtain ⟨hbooks, hready⟩ := ih fun x hx => hkeeps x (List.mem_append_left _ hx)
    have hm := hkeeps (s, m) (List.mem_append_right _ (List.mem_singleton_self _))
    exact ⟨hbooks.step hR hfree m, Move.next_retiring hR hbooks hfree hm hready⟩

/-- After the delay a candidate that has scheduled to leave, and has not resumed, can be made to
leave by anyone, and nobody has a delegation to it any more. -/
theorem scheduled_candidate_leaves {world : R.World} {m : CandidateMetadata} {n k : ℕ}
    (who : R.Account) (h₀ : Runs (State.genesis world) tr₀ s₀)
    (hcall : (Call.scheduleLeaveCandidates k).Accepted (.signed c) s₀)
    (h : Runs (Move.next s₀ (.call (.signed c) (.scheduleLeaveCandidates k))) tr s)
    (hkeeps : ∀ x ∈ tr, ¬ Resumes c x.2)
    (hround : s₀.round.current + R.leaveCandidatesDelay ≤ s.round.current)
    (hm : s.candidateInfo.get c = some m) (hn : m.delegationCount ≤ n) :
    ∃ s', (Call.executeLeaveCandidates c n).dispatch (.signed who) s = (.ok ⟨⟩, s') ∧
      Retired s s' c := by
  obtain ⟨u, hu⟩ := hcall
  have hrun := Tx.run_of_fst hu
  have hs₀ := h₀.books hR hfree
  have hs₁ := hs₀.step hR hfree (.call (.signed c) (.scheduleLeaveCandidates k))
  obtain ⟨e, m₀, he, hm₀, -, hstore⟩ := scheduleLeaveCandidates_ok hrun
  obtain rfl := RawOrigin.signed.inj he
  have hready : Retiring (Move.next s₀ (.call (.signed c) (.scheduleLeaveCandidates k))) c
      (addRounds s₀.round.current R.leaveCandidatesDelay) := by
    intro m hm
    obtain ⟨pool, hs'⟩ := storeRemoved_eq hstore
    have hget := hm.symm.trans (congrArg (fun s : State R => s.candidateInfo.get c) hs')
    rw [Option.some.inj (hget.trans (get_insert_self _ _ _))]
  have hdue := (addRounds_le _ _).trans hround
  obtain ⟨hbooks, hretiring⟩ := Runs.retiring hR hfree h hs₁ hready hkeeps
  obtain ⟨s', hleave⟩ := executeLeaveCandidates_run hbooks who hm (hretiring m hm) hdue hn
  exact ⟨s', hleave, executeLeaveCandidates_retired hbooks hleave⟩

end Runs

section Witness
open Staking.Sample

def retirement : Move (runtime 1) := user 2 (.scheduleLeaveCandidates 2)

theorem scheduled_candidate_leaves_sample : ∃ s', (Call.executeLeaveCandidates (2 : ℕ) 2).dispatch
    (.signed (6 : ℕ)) (bustle.foldl Move.next (retirement.next (after spread))) = (.ok ⟨⟩, s') ∧
      Retired (bustle.foldl Move.next (retirement.next (after spread))) s' (2 : ℕ) := by
  have hm : ∃ m, (bustle.foldl Move.next (retirement.next (after spread))).candidateInfo.get
      (2 : ℕ) = some m ∧ m.delegationCount ≤ 2 := by decide +kernel
  obtain ⟨m, hm, hn⟩ := hm
  have hkeeps : ∀ x ∈ trace Move.next (retirement.next (after spread)) bustle,
      ¬ Resumes (2 : ℕ) x.2 := by
    intro x hx hresumes
    have hmem := mem_of_trace hx
    generalize x.2 = m at hmem hresumes
    cases hresumes <;> simp [bustle, user] at hmem
  exact scheduled_candidate_leaves runtime_proper.placed (fun _ => freeBalance_le) (6 : ℕ)
    (Run.play fun _ _ => trivial) ⟨⟨⟩, by decide +kernel⟩ (Run.play fun _ _ => trivial) hkeeps
    (by decide +kernel) hm hn

end Witness
end Staking
end ZkNft
