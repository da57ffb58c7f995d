import ZkNft.Staking.Adjust

/-! The two books of the delegations, one under the candidates and one under the delegators, and
what holds of them between calls. -/

namespace ZkNft
namespace Staking
open Keyed StorageMap

variable {R : Runtime}

namespace State

/-- The delegations of `d`, as its own state has them. -/
def delegationsOf (s : State R) (d : R.Account) : List (Bond R.Account) :=
  (s.delegatorState.get d).elim [] Delegator.delegations

/-- The delegations to `c`, as its top and bottom lists have them. -/
def delegationsTo (s : State R) (c : R.Account) : List (Bond R.Account) :=
  (s.topDelegations.get c).elim [] Delegations.delegations ++
    (s.bottomDelegations.get c).elim [] Delegations.delegations

end State

/-- What storage has for an account: metadata with two lists that fit it, or nothing. -/
inductive CandidateOk (R : Runtime) : Option CandidateMetadata →
    Option (Delegations R.Account) → Option (Delegations R.Account) → Prop where
  | candidate {m : CandidateMetadata} {top bottom : Delegations R.Account}
    (hr : Ranked R top.delegations bottom.delegations) (hm : Mirrors R m top bottom) :
    CandidateOk R (some m) (some top) (some bottom)
  | other : CandidateOk R none none none

structure DelegatorOk (R : Runtime) (d : R.Account) (D : Delegator R.Account) : Prop where
  id : D.id = d
  ordered : ByOwner D.delegations
  nonempty : D.delegations ≠ []
  /-- The bound is not checked for the first delegation. -/
  length_le : D.delegations.length ≤ max 1 R.maxDelegationsPerDelegator
  pos : ∀ x ∈ D.delegations, 0 < x.amount
  total : D.total = amounts D.delegations
  total_le : D.total ≤ maxBalance
  status : D.status = .active

def CandidatesOk (s : State R) : Prop :=
  ∀ c, CandidateOk R (s.candidateInfo.get c) (s.topDelegations.get c) (s.bottomDelegations.get c)

def DelegatorsOk (s : State R) : Prop :=
  ∀ d D, s.delegatorState.get d = some D → DelegatorOk R d D

/-- A delegator has at most one request for a candidate, on a delegation that it has; a revoke is of
the whole amount. -/
structure RequestsFit (c : R.Account) (requests : List (ScheduledRequest R.Account))
    (delegationsOf : R.Account → List (Bond R.Account)) : Prop where
  distinct : Distinct ScheduledRequest.delegator requests
  live : ∀ r ∈ requests, ∃ a, ⟨c, a⟩ ∈ delegationsOf r.delegator ∧
    ∀ b, r.action = .revoke b → b = a

/-- Both books are in order, and they say the same. -/
structure Books (s : State R) : Prop where
  candidates : CandidatesOk s
  delegators : DelegatorsOk s
  agree : ∀ c d a, ⟨d, a⟩ ∈ s.delegationsTo c ↔ ⟨c, a⟩ ∈ s.delegationsOf d
  requests : ∀ c, RequestsFit c (s.delegationScheduledRequests c) s.delegationsOf

section Views
variable {s : State R} {c d : R.Account} {m : CandidateMetadata} {D : Delegator R.Account}
  {top bottom : Delegations R.Account} {x : Bond R.Account}

theorem delegationsOf_eq (hD : s.delegatorState.get d = some D) :
    s.delegationsOf d = D.delegations := by
  rw [State.delegationsOf, hD]
  rfl

theorem delegationsTo_eq (htop : s.topDelegations.get c = some top)
    (hbottom : s.bottomDelegations.get c = some bottom) :
    s.delegationsTo c = top.delegations ++ bottom.delegations := by
  rw [State.delegationsTo, htop, hbottom]
  rfl

/-- Who has a delegation is a delegator. -/
theorem delegator_of_mem (hx : x ∈ s.delegationsOf d) :
    ∃ D, s.delegatorState.get d = some D ∧ x ∈ D.delegations := by
  unfold State.delegationsOf at hx
  cases hD : s.delegatorState.get d with
  | none =>
    rw [hD] at hx
    cases hx
  | some D =>
    rw [hD] at hx
    exact ⟨D, rfl, hx⟩

theorem CandidatesOk.lists (h : CandidatesOk s) (hm : s.candidateInfo.get c = some m) :
    ∃ top bottom, s.topDelegations.get c = some top ∧ s.bottomDelegations.get c = some bottom ∧
      Ranked R top.delegations bottom.delegations ∧ Mirrors R m top bottom := by
  have hc := h c
  rw [hm] at hc
  generalize htop : s.topDelegations.get c = t at hc
  generalize hbottom : s.bottomDelegations.get c = b at hc
  cases hc with
  | candidate hr hm => exact ⟨_, _, rfl, rfl, hr, hm⟩

/-- Who is delegated to is a candidate. -/
theorem CandidatesOk.candidate_of_mem (h : CandidatesOk s) (hx : x ∈ s.delegationsTo c) :
    ∃ m, s.candidateInfo.get c = some m := by
  have hc := h c
  cases hm : s.candidateInfo.get c with
  | some m => exact ⟨m, rfl⟩
  | none =>
    rw [hm] at hc
    unfold State.delegationsTo at hx
    generalize s.topDelegations.get c = t at hc hx
    generalize s.bottomDelegations.get c = b at hc hx
    cases hc with
    | other => cases hx

theorem CandidatesOk.oneEach (h : CandidatesOk s) (c : R.Account) :
    OneEach (s.delegationsTo c) := by
  cases hm : s.candidateInfo.get c with
  | some m =>
    obtain ⟨top, bottom, htop, hbottom, hr, -⟩ := h.lists hm
    rw [delegationsTo_eq htop hbottom]
    exact hr.oneEach
  | none =>
    cases hl : s.delegationsTo c with
    | nil => exact List.nodup_nil
    | cons x l =>
      obtain ⟨m, hm'⟩ := h.candidate_of_mem (hl ▸ List.mem_cons_self)
      rw [hm] at hm'
      cases hm'

end Views

/-- A change of the lists and the metadata of a candidate that takes the delegations `o` for `n`. -/
structure Rework (s : State R) (c : R.Account) (o n : List (Bond R.Account)) where
  before : CandidateMetadata
  after : CandidateMetadata
  top : Delegations R.Account
  bottom : Delegations R.Account
  top' : Delegations R.Account
  bottom' : Delegations R.Account
  info : s.candidateInfo.get c = some before
  getTop : s.topDelegations.get c = some top
  getBottom : s.bottomDelegations.get c = some bottom
  relists : Relists before after top bottom top' bottom' o n

namespace Rework
variable {s : State R} {c c' : R.Account} {o n : List (Bond R.Account)} (w : Rework s c o n)

def result : State R :=
  { s.relist c w.before w.after w.top' w.bottom' with
    candidateInfo := s.candidateInfo.insert c w.after }

theorem delegationsTo_self :
    w.result.delegationsTo c = w.top'.delegations ++ w.bottom'.delegations :=
  delegationsTo_eq (get_insert_self _ _ _) (get_insert_self _ _ _)

theorem delegationsTo_other (h : c' ≠ c) : w.result.delegationsTo c' = s.delegationsTo c' := by
  unfold State.delegationsTo
  have htop : w.result.topDelegations.get c' = s.topDelegations.get c' := get_insert_of_ne _ _ h
  have hbottom : w.result.bottomDelegations.get c' = s.bottomDelegations.get c' :=
    get_insert_of_ne _ _ h
  rw [htop, hbottom]

theorem exchange : Exchange o n (s.delegationsTo c) (w.result.delegationsTo c) := by
  rw [delegationsTo_eq w.getTop w.getBottom, w.delegationsTo_self]
  exact w.relists.exchange

theorem candidatesOk (h : CandidatesOk s) : CandidatesOk w.result := by
  intro c'
  by_cases hc : c' = c
  · subst hc
    show CandidateOk R ((s.candidateInfo.insert c' w.after).get c')
      ((s.topDelegations.insert c' w.top').get c')
      ((s.bottomDelegations.insert c' w.bottom').get c')
    rw [get_insert_self, get_insert_self, get_insert_self]
    exact .candidate w.relists.ranked w.relists.mirrors
  · show CandidateOk R ((s.candidateInfo.insert c w.after).get c')
      ((s.topDelegations.insert c w.top').get c') ((s.bottomDelegations.insert c w.bottom').get c')
    rw [get_insert_of_ne _ _ hc, get_insert_of_ne _ _ hc, get_insert_of_ne _ _ hc]
    exact h c'

/-- The locks do not matter. -/
def ofWorld {world : R.World} (w : Rework { s with world } c o n) : Rework s c o n :=
  ⟨w.before, w.after, w.top, w.bottom, w.top', w.bottom', w.info, w.getTop, w.getBottom, w.relists⟩

/-- The metadata and the lists of `s'` are those after the change. -/
structure Stored (s' : State R) : Prop where
  info : s'.candidateInfo = w.result.candidateInfo
  top : s'.topDelegations = w.result.topDelegations
  bottom : s'.bottomDelegations = w.result.bottomDelegations

namespace Stored
variable {w} {s' : State R} (h : w.Stored s') (hs : CandidatesOk s)
include h hs

theorem candidatesOk : CandidatesOk s' := by
  unfold CandidatesOk
  rw [h.info, h.top, h.bottom]
  exact w.candidatesOk hs

/-- The entries of the lists after the change. -/
theorem mem_delegationsTo {e : R.Account} {x : Bond R.Account} : x ∈ s'.delegationsTo e ↔
    e = c ∧ x ∈ n ∨ x ∈ s.delegationsTo e ∧ ¬ (e = c ∧ ∃ y ∈ o, y.owner = x.owner) := by
  have hto : s'.delegationsTo e = w.result.delegationsTo e := by
    unfold State.delegationsTo
    rw [h.top, h.bottom]
  rw [hto]
  by_cases he : e = c
  · rw [he, w.exchange.mem_iff (hs.oneEach c)]
    simp
  · rw [w.delegationsTo_other he]
    simp [he]

end Stored
end Rework

section Leave
variable {s : State R} {c d : R.Account} {a : ℕ} (hR : R.Placed) (hs : CandidatesOk s)
include hR hs

theorem delegatorLeavesCandidate_run (hx : ⟨d, a⟩ ∈ s.delegationsTo c) :
    ∃ w : Rework s c [⟨d, a⟩] [], delegatorLeavesCandidate c d a s =
      (.ok ⟨⟩, { w.result with total := s.total - a }) ∧ StaysExact w.bottom w.bottom' := by
  obtain ⟨m, hinfo⟩ := hs.candidate_of_mem hx
  obtain ⟨top, bottom, htop, hbottom, hr, hm⟩ := hs.lists hinfo
  rw [delegationsTo_eq htop hbottom] at hx
  obtain ⟨m', top', bottom', hrun, hlists, hexact⟩ :=
    rmDelegationIfExists_run hR htop hbottom hr hm hx
  refine ⟨⟨m, m', top, bottom, top', bottom', hinfo, htop, hbottom, hlists⟩, ?_, hexact⟩
  unfold delegatorLeavesCandidate
  rw [getOr_bind hinfo]
  exact (Tx.bind_run_of_ok hrun).trans rfl

end Leave
end Staking
end ZkNft
