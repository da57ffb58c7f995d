import ZkNft.Staking.Add
import ZkNft.Staking.Leaving

/-! What each accepted call does to the books. -/

namespace ZkNft
namespace Staking
open Keyed StorageMap

variable {R : Runtime}

/-- The metadata says the same of the lists. -/
structure CandidateMetadata.SameLists (m' m : CandidateMetadata) : Prop where
  count : m'.delegationCount = m.delegationCount
  lowestTop : m'.lowestTopDelegationAmount = m.lowestTopDelegationAmount
  highestBottom : m'.highestBottomDelegationAmount = m.highestBottomDelegationAmount
  lowestBottom : m'.lowestBottomDelegationAmount = m.lowestBottomDelegationAmount
  topCapacity : m'.topCapacity = m.topCapacity
  bottomCapacity : m'.bottomCapacity = m.bottomCapacity

/-- The state with new metadata of a candidate, which may come into the pool or go out of it. -/
def State.edit (s : State R) (c : R.Account) (m : CandidateMetadata)
    (candidatePool : List (Bond R.Account)) : State R :=
  { s with candidateInfo := s.candidateInfo.insert c m, candidatePool }

/-- The state with other requests, and a delegator that counts them. -/
def State.rerequested (s : State R) (requests : R.Account → List (ScheduledRequest R.Account))
    (d : R.Account) (D : Delegator R.Account) : State R :=
  { s with
    delegationScheduledRequests := requests
    delegatorState := s.delegatorState.insert d D }

/-- What an accepted call leaves, one case for each kind of call. -/
inductive Effect (s : State R) : State R → Prop where
  | quiet (n : ℕ) (round : RoundInfo) : Effect s { s with totalSelected := n, round }
  | edit {c : R.Account} {m m' : CandidateMetadata} (candidatePool : List (Bond R.Account))
    (hm : s.candidateInfo.get c = some m) (hsame : m'.SameLists m) (hbond : m'.bond = m.bond)
    (hrequest : ∀ r, m'.request = some r → m.request = some r ∨ r.amount < m'.bond) :
    Effect s (s.edit c m' candidatePool)
  | bondMore {c : R.Account} {m m' : CandidateMetadata} {more : ℕ}
    (candidatePool : List (Bond R.Account)) (hm : s.candidateInfo.get c = some m)
    (hfree : more ≤ R.freeBalance s.world c - m.bond) (hsame : m'.SameLists m)
    (hbond : m'.bond = satAdd m.bond more) (hrequest : m'.request = m.request) :
    Effect s { s.edit c m' candidatePool with
      total := satAdd s.total more
      world := R.setLock s.world .collator c m'.bond }
  | bondLess {c : R.Account} {m m' : CandidateMetadata} {r : CandidateBondLessRequest}
    (candidatePool : List (Bond R.Account)) (hm : s.candidateInfo.get c = some m)
    (hr : m.request = some r) (hsame : m'.SameLists m) (hbond : m'.bond = m.bond - r.amount)
    (hrequest : m'.request = none) :
    Effect s { s.edit c m' candidatePool with
      total := s.total - r.amount
      world := R.setLock s.world .collator c m'.bond }
  | join {c : R.Account} {bond : ℕ} {world : R.World} (candidatePool : List (Bond R.Account))
    (hc : s.candidateInfo.get c = none) (hd : s.delegatorState.get c = none)
    (hworld : world = s.world ∨ R.leaveIntent s.world c = some world)
    (hfree : bond ≤ R.freeBalance world c) :
    Effect s { s with
      world := R.setLock world .collator c bond
      candidateInfo := s.candidateInfo.insert c (.new bond)
      topDelegations := s.topDelegations.insert c .empty
      bottomDelegations := s.bottomDelegations.insert c .empty
      candidatePool
      total := satAdd s.total bond }
  | leave {c : R.Account} {m : CandidateMetadata} {top bottom : Delegations R.Account}
    {delegators : StorageMap R.Account (Delegator R.Account)}
    {requests : R.Account → List (ScheduledRequest R.Account)} {world : R.World}
    (hm : s.candidateInfo.get c = some m) (htop : s.topDelegations.get c = some top)
    (hbottom : s.bottomDelegations.get c = some bottom)
    (hreturned : Returned s (s.settled delegators requests world) c
      ((top.delegations ++ bottom.delegations).map Bond.owner)) :
    Effect s { (s.settled delegators requests world).setRequests c [] with
      world := R.removeLock world .collator c
      candidateInfo := s.candidateInfo.remove c
      topDelegations := s.topDelegations.remove c
      bottomDelegations := s.bottomDelegations.remove c
      total := s.total - satAdd (satAdd m.bond top.total) bottom.total }
  | delegate {c d : R.Account} {a : ℕ} {m m' : CandidateMetadata}
    {top bottom : Delegations R.Account} {less : Option ℕ} {s₁ : State R}
    {D : Delegator R.Account} (hm : s.candidateInfo.get c = some m)
    (htop : s.topDelegations.get c = some top) (hbottom : s.bottomDelegations.get c = some bottom)
    (hadded : Added s c d a m top bottom less m' s₁) (hpos : 0 < a) (hD : DelegatorOk R d D)
    (hperm : D.delegations.Perm (⟨c, a⟩ :: s.delegationsOf d))
    (hfree : D.total ≤ R.freeBalance s.world d)
    (hless : D.lessTotal = (s.delegatorState.get d).elim 0 Delegator.lessTotal)
    (hnew : s.delegatorState.get d = none → s.candidateInfo.get d = none) :
    Effect s { s₁ with
      total := satAdd s.total (a - less.getD 0)
      candidateInfo := s.candidateInfo.insert c m'
      delegatorState := s₁.delegatorState.insert d D
      world := R.relock s₁.world D }
  | increase {c d : R.Account} {a more : ℕ} {D : Delegator R.Account}
    (candidatePool : List (Bond R.Account)) (w : Rework s c [⟨d, a⟩] [⟨d, a + more⟩])
    (hexact : StaysExact w.bottom w.bottom')
    (hD : s.delegatorState.get d = some D) (hmem : ⟨c, a⟩ ∈ D.delegations)
    (hfree : more ≤ R.freeBalance s.world d - D.total)
    (hrevoke : delegationRequestRevokeExists s c d = false) :
    Effect s { w.result with
      candidatePool
      total := satAdd s.total more
      delegatorState := s.delegatorState.insert d
        (D.changed c (satAdd · more) (satAdd D.total more) D.lessTotal)
      world := R.relock s.world (D.changed c (satAdd · more) (satAdd D.total more) D.lessTotal) }
  | rerequest {d : R.Account} {D : Delegator R.Account}
    {requests : R.Account → List (ScheduledRequest R.Account)} (lessTotal : ℕ)
    (hD : s.delegatorState.get d = some D)
    (hrequests : ∀ c, RequestsFit c (requests c) s.delegationsOf)
    (hreckoned : Reckoned s →
      Reckons (s.delegatorState.insert d { D with lessTotal, status := .active }) requests) :
    Effect s (s.rerequested requests d { D with lessTotal, status := .active })
  | revoke {c d : R.Account} {a : ℕ} (w : Rework s c [⟨d, a⟩] [])
    (hexact : StaysExact w.bottom w.bottom') (v : Drop s c d a) :
    Effect s { w.result with
      total := s.total - a
      delegatorState := v.result.delegatorState
      delegationScheduledRequests := v.result.delegationScheduledRequests
      world := v.world }
  | leaveDelegators {d : R.Account} {D : Delegator R.Account}
    {info : StorageMap R.Account CandidateMetadata}
    {top bottom : StorageMap R.Account (Delegations R.Account)} {pool : List (Bond R.Account)}
    {total : ℕ} {requests : R.Account → List (ScheduledRequest R.Account)}
    (hD : s.delegatorState.get d = some D)
    (hleft : Left s (s.reworked info top bottom pool total) d (D.delegations.map Bond.owner))
    (hrequests : ∀ c, (requests c).Sublist (s.delegationScheduledRequests c) ∧
      ∀ r ∈ requests c, r.delegator ≠ d)
    (hothers : ∀ c e, e ≠ d →
      requestedBy e (requests c) = requestedBy e (s.delegationScheduledRequests c)) :
    Effect s { s.reworked info top bottom pool total with
      delegatorState := s.delegatorState.remove d
      delegationScheduledRequests := requests
      world := R.relock s.world { D with total := D.total - D.total } }

/-- What an accepted decrease by `less` of a delegation of `a` leaves. -/
structure Decreased (s s' : State R) (c d : R.Account) (a less : ℕ) : Prop where
  out : ∃ (w : Rework s c [⟨d, a⟩] [⟨d, a - less⟩]) (D : Delegator R.Account),
    s.delegatorState.get d = some D ∧ ⟨c, a⟩ ∈ D.delegations ∧ less < a ∧
    (⟨d, a⟩ ∈ w.top.delegations → StaysExact w.bottom w.bottom') ∧
    (⟨d, a⟩ ∈ w.bottom.delegations → w.top' = w.top ∧ w.bottom'.total = w.bottom.total) ∧
    s' = { w.result with
      total := s.total - less
      delegatorState := s.delegatorState.insert d
        (D.changed c (· - less) (D.total - less) (D.lessTotal - less))
      delegationScheduledRequests := (s.setRequests c
        (dropRequest d (s.delegationScheduledRequests c))).delegationScheduledRequests
      world := R.relock s.world (D.changed c (· - less) (D.total - less) (D.lessTotal - less)) }

section Inversion
variable {s s' : State R} {u : PUnit} {origin : Origin R} {α β : Type}

theorem ensure_bind_ok {p : State R → Bool} {e : Error} {g : PUnit → Update R β} {b : β} :
    (ensure p e >>= g) s = (.ok b, s') ↔ p s = true ∧ g ⟨⟩ s = (.ok b, s') := by
  rw [ensure, Tx.read_bind_ok]
  constructor
  · rintro ⟨_, hp, hg⟩
    exact ⟨Exec.ensure_eq_ok.mp hp, hg⟩
  · rintro ⟨hp, hg⟩
    exact ⟨⟨⟩, Exec.ensure_eq_ok.mpr hp, hg⟩

theorem getOr_bind_ok {f : State R → Option α} {e : Error} {g : α → Update R β} {b : β} :
    (getOr f e >>= g) s = (.ok b, s') ↔ ∃ a, f s = some a ∧ g a s = (.ok b, s') := by
  rw [getOr, Tx.read_bind_ok]
  simp only [Exec.okOr_eq_ok]

theorem editCandidate_bind_ok {c : R.Account}
    {f : State R → CandidateMetadata → Except Error CandidateMetadata}
    {g : CandidateMetadata → Update R β} {b : β} :
    (editCandidate c f >>= g) s = (.ok b, s') ↔ ∃ m m', s.candidateInfo.get c = some m ∧
      f s m = .ok m' ∧ g m' s = (.ok b, s') := by
  rw [Tx.bind_run_ok]
  unfold editCandidate
  constructor
  · intro ⟨m', s₁, hedit, hg⟩
    obtain ⟨m, hm, hread⟩ := getOr_bind_ok.mp hedit
    obtain ⟨hf, rfl⟩ := Prod.mk.inj hread
    exact ⟨m, m', hm, Exec.except_mapError_eq_ok.mp (Exec.lift_eq_ok.mp hf), hg⟩
  · intro ⟨m, m', hm, hf, hg⟩
    refine ⟨m', s, getOr_bind_ok.mpr ⟨m, hm, ?_⟩, hg⟩
    rw [Tx.read_run, Exec.lift_eq_ok.mpr (Exec.except_mapError_eq_ok.mpr hf)]

end Inversion

section Candidates
variable {s s' : State R} {u : PUnit} {origin : Origin R}

theorem setTotalSelected_ok {new : ℕ} (h : setTotalSelected origin new s = (.ok u, s')) :
    s' = { s with totalSelected := new } := by
  simp only [setTotalSelected, Tx.transactional_run_ok, Tx.read_bind_ok, ensure_bind_ok,
    Tx.modify_ok] at h
  obtain ⟨_, -, -, -, -, rfl⟩ := h
  rfl

theorem setBlocksPerRound_ok {new : ℕ} (h : setBlocksPerRound origin new s = (.ok u, s')) :
    s' = { s with round := { s.round with length := new } } := by
  simp only [setBlocksPerRound, Tx.transactional_run_ok, Tx.read_bind_ok, ensure_bind_ok,
    Tx.modify_ok] at h
  obtain ⟨_, -, -, -, -, rfl⟩ := h
  rfl

theorem setTotalSelected_effect {new : ℕ}
    (h : setTotalSelected origin new s = (.ok u, s')) : Effect s s' := by
  obtain rfl := setTotalSelected_ok h
  exact .quiet new s.round

theorem setBlocksPerRound_effect {new : ℕ}
    (h : setBlocksPerRound origin new s = (.ok u, s')) : Effect s s' := by
  obtain rfl := setBlocksPerRound_ok h
  exact .quiet s.totalSelected _

theorem storeRemoved_eq {c : R.Account} {m : CandidateMetadata}
    (h : storeRemoved c m s = (.ok u, s')) : ∃ pool, s' = s.edit c m pool :=
  ⟨_, Tx.modify_ok.mp h⟩

theorem storeInserted_eq {c : R.Account} {m : CandidateMetadata}
    (h : storeInserted c m s = (.ok u, s')) : ∃ pool, s' = s.edit c m pool := by
  obtain ⟨pool, _, hstore⟩ := getOr_bind_ok.mp h
  exact ⟨pool, Tx.modify_ok.mp hstore⟩

section Statuses

theorem scheduleLeaveCandidates_ok {n : ℕ}
    (h : scheduleLeaveCandidates origin n s = (.ok u, s')) : ∃ c m, origin = .signed c ∧
      s.candidateInfo.get c = some m ∧ m.isLeaving = false ∧ storeRemoved c
        { m with status := .leaving (addRounds s.round.current R.leaveCandidatesDelay) } s =
          (.ok u, s') := by
  simp only [scheduleLeaveCandidates, Tx.transactional_run_ok, Tx.read_bind_ok,
    editCandidate_bind_ok, ensure_bind_ok] at h
  obtain ⟨c, hsigned, m, m', hm, hleave, -, hstore⟩ := h
  unfold CandidateMetadata.scheduleLeave at hleave
  split_ifs at hleave with hleaving
  obtain rfl := Except.ok.inj hleave
  exact ⟨c, m, RawOrigin.ensureSigned_eq_ok.mp hsigned, hm, eq_false_of_ne_true hleaving, hstore⟩

theorem cancelLeaveCandidates_ok {n : ℕ}
    (h : cancelLeaveCandidates origin n s = (.ok u, s')) : ∃ c m, origin = .signed c ∧
      s.candidateInfo.get c = some m ∧ storeInserted c m.goOnline s = (.ok u, s') := by
  simp only [cancelLeaveCandidates, Tx.transactional_run_ok, Tx.read_bind_ok,
    editCandidate_bind_ok, ensure_bind_ok] at h
  obtain ⟨c, hsigned, m, m', hm, honline, -, hstore⟩ := h
  split_ifs at honline
  obtain rfl := Except.ok.inj honline
  exact ⟨c, m, RawOrigin.ensureSigned_eq_ok.mp hsigned, hm, hstore⟩

theorem goOffline_ok (h : goOffline origin s = (.ok u, s')) : ∃ c m,
    s.candidateInfo.get c = some m ∧ m.isActive = true ∧
      storeRemoved c m.goOffline s = (.ok u, s') := by
  simp only [goOffline, Tx.transactional_run_ok, Tx.read_bind_ok, editCandidate_bind_ok] at h
  obtain ⟨c, -, m, m', hm, hoffline, hstore⟩ := h
  split_ifs at hoffline with hactive
  obtain rfl := Except.ok.inj hoffline
  exact ⟨c, m, hm, hactive, hstore⟩

theorem goOnline_ok (h : goOnline origin s = (.ok u, s')) : ∃ c m,
    s.candidateInfo.get c = some m ∧ m.isLeaving = false ∧
      storeInserted c m.goOnline s = (.ok u, s') := by
  simp only [goOnline, Tx.transactional_run_ok, Tx.read_bind_ok, editCandidate_bind_ok] at h
  obtain ⟨c, -, m, m', hm, honline, hstore⟩ := h
  split_ifs at honline with hactive hleaving
  obtain rfl := Except.ok.inj honline
  exact ⟨c, m, hm, eq_false_of_ne_true hleaving, hstore⟩

end Statuses

theorem scheduleLeaveCandidates_effect {n : ℕ}
    (h : scheduleLeaveCandidates origin n s = (.ok u, s')) : Effect s s' := by
  obtain ⟨c, m, -, hm, -, hstore⟩ := scheduleLeaveCandidates_ok h
  obtain ⟨pool, rfl⟩ := storeRemoved_eq hstore
  exact .edit pool hm ⟨rfl, rfl, rfl, rfl, rfl, rfl⟩ rfl fun _ hr => .inl hr

theorem cancelLeaveCandidates_effect {n : ℕ}
    (h : cancelLeaveCandidates origin n s = (.ok u, s')) : Effect s s' := by
  obtain ⟨c, m, -, hm, hstore⟩ := cancelLeaveCandidates_ok h
  obtain ⟨pool, rfl⟩ := storeInserted_eq hstore
  exact .edit pool hm ⟨rfl, rfl, rfl, rfl, rfl, rfl⟩ rfl fun _ hr => .inl hr

theorem goOffline_effect (h : goOffline origin s = (.ok u, s')) : Effect s s' := by
  obtain ⟨c, m, hm, -, hstore⟩ := goOffline_ok h
  obtain ⟨pool, rfl⟩ := storeRemoved_eq hstore
  exact .edit pool hm ⟨rfl, rfl, rfl, rfl, rfl, rfl⟩ rfl fun _ hr => .inl hr

theorem goOnline_effect (h : goOnline origin s = (.ok u, s')) : Effect s s' := by
  obtain ⟨c, m, hm, -, hstore⟩ := goOnline_ok h
  obtain ⟨pool, rfl⟩ := storeInserted_eq hstore
  exact .edit pool hm ⟨rfl, rfl, rfl, rfl, rfl, rfl⟩ rfl fun _ hr => .inl hr

section Bonds

/-- The request of a candidate for less bond. -/
theorem scheduleCandidateBondLess_ok {less : ℕ}
    (h : scheduleCandidateBondLess origin less s = (.ok u, s')) : ∃ c m, origin = .signed c ∧
      s.candidateInfo.get c = some m ∧ less < m.bond ∧ s' = { s with
        candidateInfo := s.candidateInfo.insert c { m with
          request := some ⟨less, addRounds s.round.current R.candidateBondLessDelay⟩ } } := by
  simp only [scheduleCandidateBondLess, Tx.transactional_run_ok, Tx.read_bind_ok,
    editCandidate_bind_ok, Tx.modify_ok] at h
  obtain ⟨c, hsigned, m, m', hm, hless, rfl⟩ := h
  unfold CandidateMetadata.scheduleBondLess at hless
  split_ifs at hless with hnone hbond hmin
  obtain rfl := Except.ok.inj hless
  exact ⟨c, m, RawOrigin.ensureSigned_eq_ok.mp hsigned, hm, hbond, rfl⟩

theorem cancelCandidateBondLess_ok (h : cancelCandidateBondLess origin s = (.ok u, s')) :
    ∃ c m, s.candidateInfo.get c = some m ∧
      s' = { s with candidateInfo := s.candidateInfo.insert c { m with request := none } } := by
  simp only [cancelCandidateBondLess, Tx.transactional_run_ok, Tx.read_bind_ok,
    editCandidate_bind_ok, Tx.modify_ok] at h
  obtain ⟨c, -, m, m', hm, hcancel, rfl⟩ := h
  unfold CandidateMetadata.cancelBondLess at hcancel
  split_ifs at hcancel
  obtain rfl := Except.ok.inj hcancel
  exact ⟨c, m, hm, rfl⟩

/-- The pool after a new stake of `c`, which is in it if it is active. -/
def State.pooled (s : State R) (c : R.Account) (m : CandidateMetadata) : List (Bond R.Account) :=
  if m.isActive then (updateActive c m.totalCounted s).2.candidatePool else s.candidatePool

theorem candidateBondMore_ok {more : ℕ}
    (h : candidateBondMore origin more s = (.ok u, s')) : ∃ c m m',
      s.candidateInfo.get c = some m ∧ more ≤ s.collatorStakableFreeBalance c ∧
      m' = { m with bond := satAdd m.bond more, totalCounted := satAdd m.totalCounted more } ∧
      s' = { s with
        candidateInfo := s.candidateInfo.insert c m'
        total := satAdd s.total more
        world := R.setLock s.world .collator c m'.bond
        candidatePool := s.pooled c m' } := by
  simp only [candidateBondMore, Tx.transactional_run_ok, Tx.read_bind_ok, getOr_bind_ok] at h
  obtain ⟨c, -, m, hm, h⟩ := h
  obtain ⟨m', s₁, hbond, h⟩ := Tx.bind_run_ok.mp h
  simp only [CandidateMetadata.bondMore, ensure_bind_ok, Tx.modify_bind_ok, Tx.pure_ok] at hbond
  obtain ⟨hfree, rfl, rfl⟩ := hbond
  refine ⟨c, m, _, hm, of_decide_eq_true hfree, rfl, ?_⟩
  rw [Tx.modify_bind_ok] at h
  unfold State.pooled
  split_ifs at h ⊢
  · exact (Prod.mk.inj h).2.symm
  · exact (Prod.mk.inj h).2.symm

theorem executeCandidateBondLess_ok {c : R.Account}
    (h : executeCandidateBondLess origin c s = (.ok u, s')) : ∃ m m' r,
      s.candidateInfo.get c = some m ∧ m.request = some r ∧
      r.whenExecutable ≤ s.round.current ∧
      m' = { m with
        bond := m.bond - r.amount, totalCounted := m.totalCounted - r.amount, request := none } ∧
      s' = { s with
        candidateInfo := s.candidateInfo.insert c m'
        total := s.total - r.amount
        world := R.setLock s.world .collator c m'.bond
        candidatePool := s.pooled c m' } := by
  simp only [executeCandidateBondLess, Tx.transactional_run_ok, Tx.read_bind_ok,
    getOr_bind_ok] at h
  obtain ⟨_, -, m, hm, h⟩ := h
  obtain ⟨m', s₁, hbond, h⟩ := Tx.bind_run_ok.mp h
  simp only [CandidateMetadata.executeBondLess, getOr_bind_ok, ensure_bind_ok,
    Tx.modify_bind_ok] at hbond
  obtain ⟨r, hr, hdue, hbond⟩ := hbond
  refine ⟨m, _, r, hm, hr, of_decide_eq_true hdue, rfl, ?_⟩
  unfold State.pooled
  split_ifs at hbond ⊢
  · obtain ⟨hm', rfl⟩ := Prod.mk.inj hbond
    obtain rfl := Exec.ok.inj hm'
    exact Tx.modify_ok.mp h
  · obtain ⟨hm', rfl⟩ := Prod.mk.inj hbond
    obtain rfl := Exec.ok.inj hm'
    exact Tx.modify_ok.mp h

/-- A decrease that goes through, up to the lists of the candidate. -/
theorem executeDecrease_ok {c d : R.Account} {n : ℕ} {D : Delegator R.Account}
    {rest : List (ScheduledRequest R.Account)}
    (h : executeDecrease c d D n rest s = (.ok u, s')) : ∃ a m m' D' s₁ s₂,
      D.getBondAmount c = some a ∧ n < a ∧ R.minDelegation ≤ D.total - n ∧
      R.minDelegatorStk ≤ D.total - n ∧ s.candidateInfo.get c = some m ∧
      D' = { D with
        lessTotal := D.lessTotal - n
        delegations := changeFirst c (· - n) D.delegations
        total := D.total - n } ∧
      D'.adjustBondLock .decrease s = (.ok ⟨⟩, s₁) ∧
      m.decreaseDelegation c d a n s₁ = (.ok m', s₂) ∧
      s' = { s₂.setRequests c rest with
        candidateInfo := s₂.candidateInfo.insert c m'
        total := s₂.total - n
        delegatorState := s₂.delegatorState.insert d D' } := by
  simp only [executeDecrease, getOr_bind_ok, ensure_bind_ok] at h
  obtain ⟨a, hbond, hless, m, hm, h⟩ := h
  obtain ⟨D', s₁, hsub, h⟩ := Tx.bind_run_ok.mp h
  obtain ⟨m', s₂, hdecrease, h⟩ := Tx.bind_run_ok.mp h
  simp only [Delegator.totalSubIf, ensure_bind_ok] at hsub
  obtain ⟨hmin, hmin', hsub⟩ := hsub
  obtain ⟨_, s₃, hlock, hsub⟩ := Tx.bind_run_ok.mp hsub
  obtain ⟨hD', rfl⟩ := Tx.pure_ok.mp hsub
  refine ⟨a, m, m', D', _, s₂, hbond, of_decide_eq_true hless, of_decide_eq_true hmin,
    of_decide_eq_true hmin', hm, hD', ?_, hdecrease, Tx.modify_ok.mp h⟩
  rw [hD']
  exact hlock

/-- A delegator leaves by the status that it has, or else by its requests. -/
theorem executeLeaveDelegators_cases {d : R.Account} {n : ℕ}
    (h : executeLeaveDelegators origin d n s = (.ok u, s')) : ∃ D,
      s.delegatorState.get d = some D ∧
      ((∃ when s₁, D.status = .leaving when ∧ when ≤ s.round.current ∧
          leaveAllDeprecated d D D.delegations s = (.ok ⟨⟩, s₁) ∧
          s' = { s₁ with delegatorState := s₁.delegatorState.remove d }) ∨
        ∃ validated s₁ s₂ s₃, D.status = .active ∧
          validateRevokes d D.delegations s = (.ok validated, s₁) ∧
          leaveAll d (validated.map Prod.fst) s₁ = (.ok ⟨⟩, s₂) ∧
          { D with total := D.total - D.total }.adjustBondLock .decrease s₂ = (.ok ⟨⟩, s₃) ∧
          s' = { s₃.setAllRequests (validated.map fun x => (x.1.owner, x.2)) with
            delegatorState := s₃.delegatorState.remove d }) := by
  simp only [executeLeaveDelegators, Tx.transactional_run_ok, Tx.read_bind_ok,
    delegatorExecuteScheduledRevokeAll, getOr_bind_ok, ensure_bind_ok] at h
  obtain ⟨_, -, D, hD, -, h⟩ := h
  refine ⟨D, hD, ?_⟩
  cases hstatus : D.status with
  | leaving when =>
    rw [hstatus] at h
    obtain ⟨hdue, h⟩ := ensure_bind_ok.mp h
    obtain ⟨_, s₁, hleave, h⟩ := Tx.bind_run_ok.mp h
    exact .inl ⟨when, s₁, rfl, of_decide_eq_true hdue, hleave, Tx.modify_ok.mp h⟩
  | active =>
    rw [hstatus] at h
    obtain ⟨validated, s₁, hvalidate, h⟩ := Tx.bind_run_ok.mp h
    obtain ⟨_, s₂, hleave, h⟩ := Tx.bind_run_ok.mp h
    obtain ⟨_, s₃, hsub, h⟩ := Tx.bind_run_ok.mp h
    obtain ⟨_, s₄, hlock, hsub⟩ := Tx.bind_run_ok.mp hsub
    obtain ⟨-, rfl⟩ := Tx.pure_ok.mp hsub
    exact .inr ⟨validated, s₁, s₂, _, rfl, hvalidate, hleave, hlock, Tx.modify_ok.mp h⟩

end Bonds

theorem scheduleCandidateBondLess_effect {less : ℕ}
    (h : scheduleCandidateBondLess origin less s = (.ok u, s')) : Effect s s' := by
  obtain ⟨c, m, -, hm, hbond, rfl⟩ := scheduleCandidateBondLess_ok h
  refine .edit s.candidatePool hm ⟨rfl, rfl, rfl, rfl, rfl, rfl⟩ rfl ?_
  intro r hr
  obtain rfl := Option.some.inj hr
  exact .inr hbond

theorem cancelCandidateBondLess_effect
    (h : cancelCandidateBondLess origin s = (.ok u, s')) : Effect s s' := by
  obtain ⟨c, m, hm, rfl⟩ := cancelCandidateBondLess_ok h
  refine .edit s.candidatePool hm ⟨rfl, rfl, rfl, rfl, rfl, rfl⟩ rfl ?_
  intro r hr
  cases hr

theorem candidateBondMore_effect {more : ℕ}
    (h : candidateBondMore origin more s = (.ok u, s')) : Effect s s' := by
  obtain ⟨c, m, _, hm, hfree, rfl, rfl⟩ := candidateBondMore_ok h
  rw [State.collatorStakableFreeBalance, hm] at hfree
  exact .bondMore _ hm hfree ⟨rfl, rfl, rfl, rfl, rfl, rfl⟩ rfl rfl

theorem executeCandidateBondLess_effect {c : R.Account}
    (h : executeCandidateBondLess origin c s = (.ok u, s')) : Effect s s' := by
  obtain ⟨m, _, r, hm, hr, -, rfl, rfl⟩ := executeCandidateBondLess_ok h
  exact .bondLess _ hm hr ⟨rfl, rfl, rfl, rfl, rfl, rfl⟩ rfl rfl

/-- The check leaves the books alone, but the deposit of the whitelist may come back. -/
theorem checkCandidateBond_ok {c : R.Account} {bond : ℕ}
    (h : checkCandidateBond c bond s = (.ok u, s')) : ∃ world, s' = { s with world } ∧
      (world = s.world ∨ R.leaveIntent s.world c = some world) := by
  simp only [checkCandidateBond, Tx.read_bind_ok] at h
  obtain ⟨listed, _, h⟩ := h
  split_ifs at h
  · simp only [ensure_bind_ok, getOr_bind_ok, Tx.modify_bind_ok] at h
    obtain ⟨_, world, hleave, h⟩ := h
    obtain ⟨_, rfl⟩ := Prod.mk.inj h
    exact ⟨world, rfl, .inr hleave⟩
  · obtain ⟨_, rfl⟩ := Prod.mk.inj h
    exact ⟨s.world, rfl, .inl rfl⟩

/-- A new candidate has its bond free. -/
theorem joinCandidates_ok {bond n : ℕ} (h : joinCandidates origin bond n s = (.ok u, s')) :
    ∃ c pool world, origin = .signed c ∧ s.candidateInfo.get c = none ∧
      s.delegatorState.get c = none ∧
      (world = s.world ∨ R.leaveIntent s.world c = some world) ∧
      OrderedSet.insert s.candidatePool ⟨c, bond⟩ = some pool ∧ bond ≤ R.freeBalance world c ∧
      s' = { s with
        world := R.setLock world .collator c bond
        candidateInfo := s.candidateInfo.insert c (.new bond)
        topDelegations := s.topDelegations.insert c .empty
        bottomDelegations := s.bottomDelegations.insert c .empty
        candidatePool := pool
        total := satAdd s.total bond } := by
  simp only [joinCandidates, Tx.transactional_run_ok, Tx.read_bind_ok, ensure_bind_ok] at h
  obtain ⟨c, hsigned, hcandidate, hdelegator, h⟩ := h
  obtain ⟨_, s₁, hcheck, h⟩ := Tx.bind_run_ok.mp h
  obtain ⟨world, rfl, hworld⟩ := checkCandidateBond_ok hcheck
  simp only [ensure_bind_ok, getOr_bind_ok, Tx.modify_ok] at h
  obtain ⟨-, pool, hpool, hfree, rfl⟩ := h
  have hc : s.candidateInfo.get c = none := by
    simpa [State.isCandidate, containsKey] using hcandidate
  have hd : s.delegatorState.get c = none := by
    simpa [State.isDelegator, containsKey] using hdelegator
  have hfree' : bond ≤ R.freeBalance world c := by
    have hge := of_decide_eq_true hfree
    rw [State.collatorStakableFreeBalance, hc] at hge
    exact hge
  exact ⟨c, pool, world, RawOrigin.ensureSigned_eq_ok.mp hsigned, hc, hd, hworld, hpool, hfree',
    rfl⟩

theorem joinCandidates_effect {bond n : ℕ}
    (h : joinCandidates origin bond n s = (.ok u, s')) : Effect s s' := by
  obtain ⟨c, pool, world, -, hc, hd, hworld, -, hfree, rfl⟩ := joinCandidates_ok h
  exact .join pool hc hd hworld hfree

theorem canLeave_eq_ok {m : CandidateMetadata} {now : ℕ}
    (h : (m.canLeave now).mapError DispatchError.module = .ok u) :
    ∃ when, m.status = .leaving when ∧ when ≤ now := by
  unfold CandidateMetadata.canLeave at h
  cases hstatus : m.status with
  | leaving when =>
    rw [hstatus] at h
    dsimp only at h
    split_ifs at h with hdue
    · exact ⟨when, rfl, hdue⟩
    · cases h
  | active =>
    rw [hstatus] at h
    cases h
  | idle =>
    rw [hstatus] at h
    cases h

/-- A candidate leaves when its time has come, and both lists of its delegations go back. -/
theorem executeLeaveCandidates_ok {c : R.Account} {n : ℕ}
    (h : executeLeaveCandidates origin c n s = (.ok u, s')) : ∃ m when top bottom s₁ s₂,
      s.candidateInfo.get c = some m ∧ m.status = .leaving when ∧ when ≤ s.round.current ∧
      s.topDelegations.get c = some top ∧
      returnStakes c top.delegations { s with topDelegations := s.topDelegations.remove c } =
        (.ok ⟨⟩, s₁) ∧
      s₁.bottomDelegations.get c = some bottom ∧
      returnStakes c bottom.delegations
        { s₁ with bottomDelegations := s₁.bottomDelegations.remove c } = (.ok ⟨⟩, s₂) ∧
      s' = { s₂.setRequests c [] with
        world := R.removeLock s₂.world .collator c
        candidateInfo := s₂.candidateInfo.remove c
        total := s₂.total - satAdd (satAdd m.bond top.total) bottom.total } := by
  simp only [executeLeaveCandidates, Tx.transactional_run_ok, Tx.read_bind_ok, getOr_bind_ok,
    ensure_bind_ok, Tx.modify_bind_ok] at h
  obtain ⟨_, -, m, hm, -, _, hleave, top, htop, h⟩ := h
  obtain ⟨when, hstatus, hdue⟩ := canLeave_eq_ok (Exec.lift_eq_ok.mp hleave)
  obtain ⟨_, s₁, hrun, h⟩ := Tx.bind_run_ok.mp h
  simp only [getOr_bind_ok, Tx.modify_bind_ok] at h
  obtain ⟨bottom, hbottom, h⟩ := h
  obtain ⟨_, s₂, hrun', h⟩ := Tx.bind_run_ok.mp h
  exact ⟨m, when, top, bottom, s₁, s₂, hm, hstatus, hdue, htop, hrun, hbottom, hrun',
    Tx.modify_ok.mp h⟩

/-- The new delegation goes to the lists of the candidate, and then into the state and the lock of
the delegator. -/
theorem delegate_ok {c : R.Account} {a n k : ℕ} (h : delegate origin c a n k s = (.ok u, s')) :
    ∃ d D m m' less s₁ s₂, origin = .signed d ∧ a ≤ s.delegatorStakableFreeBalance d ∧
      joinDelegation s d c a k = .ok D ∧ s.candidateInfo.get c = some m ∧
      m.addDelegation c ⟨d, a⟩ s = (.ok (m', less), s₁) ∧
      D.adjustBondLock (.increase a) s₁ = (.ok ⟨⟩, s₂) ∧
      s' = { s₂ with
        total := satAdd s₂.total (a - less.getD 0)
        candidateInfo := s₂.candidateInfo.insert c m'
        delegatorState := s₂.delegatorState.insert d D } := by
  simp only [delegate, Tx.transactional_run_ok, Tx.read_bind_ok, ensure_bind_ok, Exec.lift_eq_ok,
    Exec.except_mapError_eq_ok, getOr_bind_ok] at h
  obtain ⟨d, hsigned, hroom, D, hjoin, m, hm, -, h⟩ := h
  obtain ⟨⟨m', less⟩, s₁, hadd, h⟩ := Tx.bind_run_ok.mp h
  obtain ⟨_, s₂, hlock, hstore⟩ := Tx.bind_run_ok.mp h
  exact ⟨d, D, m, m', less, s₁, s₂, RawOrigin.ensureSigned_eq_ok.mp hsigned,
    of_decide_eq_true hroom, hjoin, hm, hadd, hlock, Tx.modify_ok.mp hstore⟩

/-- More of a delegation that is not to be revoked. -/
theorem delegatorBondMore_ok {c : R.Account} {more : ℕ}
    (h : delegatorBondMore origin c more s = (.ok u, s')) : ∃ d D a,
      delegationRequestRevokeExists s c d = false ∧ s.delegatorState.get d = some D ∧
      D.getBondAmount c = some a ∧
      Delegator.storeIncrease { D with
        delegations := changeFirst c (satAdd · more) D.delegations
        total := satAdd D.total more } c a more s = (.ok u, s') := by
  simp only [delegatorBondMore, Tx.transactional_run_ok, Tx.read_bind_ok, ensure_bind_ok,
    getOr_bind_ok, Delegator.increaseDelegation] at h
  obtain ⟨d, -, hrevoke, D, hD, a, hbond, h⟩ := h
  have hrevoke' : delegationRequestRevokeExists s c d = false := by simpa using hrevoke
  exact ⟨d, D, a, hrevoke', hD, hbond, h⟩

/-- A due request is taken out of the list, and done. -/
theorem executeDelegationRequest_ok {c d : R.Account}
    (h : executeDelegationRequest origin d c s = (.ok u, s')) : ∃ who D request rest,
      origin = .signed who ∧ s.delegatorState.get d = some D ∧
      takeRequest d (s.delegationScheduledRequests c) = some (request, rest) ∧
      request.whenExecutable ≤ s.round.current ∧
      ((∃ a, request.action = .revoke a ∧ executeRevoke c d D a rest s = (.ok u, s')) ∨
        ∃ less, request.action = .decrease less ∧
          executeDecrease c d D less rest s = (.ok u, s')) := by
  simp only [executeDelegationRequest, delegationExecuteScheduledRequest,
    Tx.transactional_run_ok, Tx.read_bind_ok, getOr_bind_ok, readRequests, ensure_bind_ok,
    Exec.ok.injEq, exists_eq_left'] at h
  obtain ⟨who, horigin, D, hD, ⟨request, rest⟩, htake, hdue, h⟩ := h
  refine ⟨who, D, request, rest, RawOrigin.ensureSigned_eq_ok.mp horigin, hD, htake,
    of_decide_eq_true hdue, ?_⟩
  cases haction : request.action with
  | revoke a =>
    rw [haction] at h
    exact .inl ⟨a, rfl, h⟩
  | decrease less =>
    rw [haction] at h
    exact .inr ⟨less, rfl, h⟩

variable (hs : Books s)
include hs

/-- The loops over the two lists of a candidate. -/
theorem returnStakes_both {c : R.Account} {m : CandidateMetadata}
    {top bottom : Delegations R.Account} (hm : s.candidateInfo.get c = some m)
    (htop : s.topDelegations.get c = some top) (hbottom : s.bottomDelegations.get c = some bottom) :
    ∃ D Q w D' Q' w',
      returnStakes c top.delegations { s with topDelegations := s.topDelegations.remove c } =
        (.ok ⟨⟩, { s.settled D Q w with topDelegations := s.topDelegations.remove c }) ∧
      returnStakes c bottom.delegations { s.settled D Q w with
        topDelegations := s.topDelegations.remove c
        bottomDelegations := s.bottomDelegations.remove c } =
          (.ok ⟨⟩, { s.settled D' Q' w' with
            topDelegations := s.topDelegations.remove c
            bottomDelegations := s.bottomDelegations.remove c }) ∧
      Returned s (s.settled D' Q' w') c
        ((top.delegations ++ bottom.delegations).map Bond.owner) := by
  obtain ⟨top', bottom', htop', hbottom', hr, -⟩ := hs.candidates.lists hm
  obtain rfl := Option.some.inj (htop.symm.trans htop')
  obtain rfl := Option.some.inj (hbottom.symm.trans hbottom')
  have hlists := delegationsTo_eq htop hbottom
  have hagree : ∀ x ∈ top.delegations ++ bottom.delegations,
      ⟨c, x.amount⟩ ∈ s.delegationsOf x.owner := by
    intro x hx
    rw [← hlists] at hx
    exact (hs.agree c x.owner x.amount).mp hx
  have ⟨htopAgree, hbottomAgree⟩ := List.forall_mem_append.mp hagree
  obtain ⟨D, Q, w, hrun, hreturned⟩ := returnStakes_run
    (s := { s with topDelegations := s.topDelegations.remove c }) hs.delegators hr.oneEach_top
    htopAgree
  have hreturned : Returned s (s.settled D Q w) c _ := ⟨hreturned.requests,
    hreturned.mem_delegationsOf, hreturned.delegators, hreturned.keys, hreturned.backed,
    hreturned.locked, hreturned.reckoned⟩
  have hbottomAgree' : ∀ x ∈ bottom.delegations,
      ⟨c, x.amount⟩ ∈ (s.settled D Q w).delegationsOf x.owner := by
    intro x hx
    rw [hreturned.mem_delegationsOf]
    refine ⟨hbottomAgree x hx, ?_⟩
    intro ⟨hmem, _⟩
    obtain ⟨y, hy, hyx⟩ := List.mem_map.mp hmem
    exact hr.ne_of_mem hy hx hyx
  obtain ⟨D', Q', w', hrun', hreturned'⟩ := returnStakes_run
    (s := { s.settled D Q w with
      topDelegations := s.topDelegations.remove c
      bottomDelegations := s.bottomDelegations.remove c }) hreturned.delegators hr.oneEach_bottom
    hbottomAgree'
  have hreturned' : Returned (s.settled D Q w) (s.settled D' Q' w') c _ := ⟨hreturned'.requests,
    hreturned'.mem_delegationsOf, hreturned'.delegators, hreturned'.keys, hreturned'.backed,
    hreturned'.locked, hreturned'.reckoned⟩
  have hall := hreturned.append hreturned'
  rw [← List.map_append] at hall
  exact ⟨D, Q, w, D', Q', w', hrun, hrun', hall⟩

/-- Every delegator of the candidate has its delegation back. -/
theorem executeLeaveCandidates_returned {c : R.Account} {n : ℕ}
    (h : executeLeaveCandidates origin c n s = (.ok u, s')) :
    ∃ m top bottom delegators requests world, s.candidateInfo.get c = some m ∧
      s.topDelegations.get c = some top ∧ s.bottomDelegations.get c = some bottom ∧
      Returned s (s.settled delegators requests world) c
        ((top.delegations ++ bottom.delegations).map Bond.owner) ∧
      s' = { (s.settled delegators requests world).setRequests c [] with
        world := R.removeLock world .collator c
        candidateInfo := s.candidateInfo.remove c
        topDelegations := s.topDelegations.remove c
        bottomDelegations := s.bottomDelegations.remove c
        total := s.total - satAdd (satAdd m.bond top.total) bottom.total } := by
  obtain ⟨m, _, top, bottom₁, s₁, s₂, hm, -, -, htop, hrun₁, hbottom₁, hrun₂, rfl⟩ :=
    executeLeaveCandidates_ok h
  obtain ⟨top', bottom, -, hbottom, -, -⟩ := hs.candidates.lists hm
  obtain ⟨D, Q, w, D', Q', w', hrun, hrun', hall⟩ := returnStakes_both hs hm htop hbottom
  obtain rfl := (Prod.mk.inj (hrun.symm.trans hrun₁)).2
  have hsame : some bottom₁ = some bottom := hbottom₁.symm.trans hbottom
  obtain rfl := Option.some.inj hsame
  obtain rfl := (Prod.mk.inj (hrun'.symm.trans hrun₂)).2
  exact ⟨m, top, bottom₁, D', Q', w', hm, htop, hbottom, hall, rfl⟩

theorem executeLeaveCandidates_effect {c : R.Account} {n : ℕ}
    (h : executeLeaveCandidates origin c n s = (.ok u, s')) : Effect s s' := by
  obtain ⟨m, top, bottom, _, _, _, hm, htop, hbottom, hreturned, rfl⟩ :=
    executeLeaveCandidates_returned hs h
  exact .leave hm htop hbottom hreturned

end Candidates
end Staking
end ZkNft
