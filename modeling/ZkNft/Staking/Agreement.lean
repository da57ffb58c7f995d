import ZkNft.Lib.Run
import ZkNft.Staking.Delegating
import ZkNft.Staking.Sample

/-! Both books say the same in every state that calls and blocks reach. -/

namespace ZkNft
namespace Staking
open Keyed StorageMap

variable {R : Runtime}

/-- Both books lose the delegations that are `gone` and get the `new` ones. -/
structure Shift (s s' : State R) (gone : R.Account → R.Account → Prop)
    (new : R.Account → R.Account → ℕ → Prop) : Prop where
  candidate : ∀ c d a, ⟨d, a⟩ ∈ s'.delegationsTo c ↔
    new c d a ∨ ⟨d, a⟩ ∈ s.delegationsTo c ∧ ¬ gone c d
  delegator : ∀ c d a, ⟨c, a⟩ ∈ s'.delegationsOf d ↔
    new c d a ∨ ⟨c, a⟩ ∈ s.delegationsOf d ∧ ¬ gone c d

/-- The books agree after a shift. A request stays only if its delegation does, or if it is no
revoke of a delegation that is new. -/
theorem Books.shift {s s' : State R} {gone : R.Account → R.Account → Prop}
    {new : R.Account → R.Account → ℕ → Prop} (hs : Books s) (h : Shift s s' gone new)
    (hcandidates : CandidatesOk s') (hdelegators : DelegatorsOk s')
    (hsub : ∀ c, (s'.delegationScheduledRequests c).Sublist (s.delegationScheduledRequests c))
    (hlive : ∀ c, ∀ r ∈ s'.delegationScheduledRequests c, ¬ gone c r.delegator ∨
      ∃ a, new c r.delegator a ∧ ∀ b, r.action ≠ .revoke b) : Books s' := by
  refine ⟨hcandidates, hdelegators, ?_, ?_⟩
  · intro c d a
    rw [h.candidate, h.delegator, hs.agree]
  · intro c
    have hfit := hs.requests c
    refine ⟨hfit.distinct.sublist (hsub c), ?_⟩
    intro r hr
    obtain ⟨a, hmem, hrevoke⟩ := hfit.live r ((hsub c).subset hr)
    rcases hlive c r hr with hgone | ⟨b, hnew, hno⟩
    · exact ⟨a, (h.delegator ..).mpr (.inr ⟨hmem, hgone⟩), hrevoke⟩
    · exact ⟨b, (h.delegator ..).mpr (.inl hnew), fun b' hb' => absurd hb' (hno b')⟩

section Candidates
variable {s : State R} {c : R.Account} {m m' : CandidateMetadata}

theorem CandidatesOk.edit (hs : CandidatesOk s) (hm : s.candidateInfo.get c = some m)
    (hsame : m'.SameLists m) (pool : List (Bond R.Account)) : CandidatesOk (s.edit c m' pool) := by
  intro b
  show CandidateOk R ((s.candidateInfo.insert c m').get b) _ _
  by_cases hb : b = c
  · obtain ⟨top, bottom, htop, hbottom, hr, hmirrors⟩ := hs.lists hm
    rw [hb, get_insert_self]
    show CandidateOk R _ (s.topDelegations.get c) (s.bottomDelegations.get c)
    rw [htop, hbottom]
    exact .candidate hr ⟨hsame.lowestTop.trans hmirrors.lowestTop,
      hsame.highestBottom.trans hmirrors.highestBottom,
      hsame.lowestBottom.trans hmirrors.lowestBottom,
      hsame.topCapacity.trans hmirrors.topCapacity,
      hsame.bottomCapacity.trans hmirrors.bottomCapacity, hsame.count.trans hmirrors.count⟩
  · rw [get_insert_of_ne _ _ hb]
    exact hs b

/-- Metadata that says the same of the lists keeps the books. -/
theorem Books.edit (hs : Books s) (hm : s.candidateInfo.get c = some m) (hsame : m'.SameLists m)
    (pool : List (Bond R.Account)) : Books (s.edit c m' pool) :=
  ⟨hs.candidates.edit hm hsame pool, hs.delegators, hs.agree, hs.requests⟩

/-- A new candidate has no delegations. -/
theorem CandidatesOk.join (hs : CandidatesOk s) {s' : State R} {bond : ℕ}
    (hinfo : s'.candidateInfo = s.candidateInfo.insert c (.new bond))
    (htop : s'.topDelegations = s.topDelegations.insert c .empty)
    (hbottom : s'.bottomDelegations = s.bottomDelegations.insert c .empty) (hR : R.Placed) :
    CandidatesOk s' := by
  intro b
  rw [hinfo, htop, hbottom]
  by_cases hb : b = c
  · rw [hb, get_insert_self, get_insert_self, get_insert_self]
    have hcap : (Delegations.empty : Delegations R.Account).topCapacity R = .empty :=
      (capacity_empty hR.maxTop_pos).mpr rfl
    have hcap' : (Delegations.empty : Delegations R.Account).bottomCapacity R = .empty :=
      (capacity_empty hR.maxBottom_pos).mpr rfl
    refine .candidate ⟨List.Pairwise.nil, List.Pairwise.nil, ?_, fun hne => absurd rfl hne,
      Nat.zero_le _, Nat.zero_le _, List.nodup_nil, ?_⟩ ⟨rfl, rfl, rfl, hcap.symm, hcap'.symm, rfl⟩
    · intro x hx
      cases hx
    · intro x hx
      cases hx
  · rw [get_insert_of_ne _ _ hb, get_insert_of_ne _ _ hb, get_insert_of_ne _ _ hb]
    exact hs b

theorem CandidatesOk.remove (hs : CandidatesOk s) {s' : State R}
    (hinfo : s'.candidateInfo = s.candidateInfo.remove c)
    (htop : s'.topDelegations = s.topDelegations.remove c)
    (hbottom : s'.bottomDelegations = s.bottomDelegations.remove c) : CandidatesOk s' := by
  intro b
  rw [hinfo, htop, hbottom]
  by_cases hb : b = c
  · rw [hb, get_remove_self, get_remove_self, get_remove_self]
    exact .other
  · rw [get_remove_of_ne _ hb, get_remove_of_ne _ hb, get_remove_of_ne _ hb]
    exact hs b

end Candidates

section Delegators
variable {s : State R} {d : R.Account} {D : Delegator R.Account}

theorem DelegatorsOk.insert (hs : DelegatorsOk s) {s' : State R} (hD : DelegatorOk R d D)
    (h : s'.delegatorState = s.delegatorState.insert d D) : DelegatorsOk s' := by
  unfold DelegatorsOk
  rw [h]
  exact forall_insert hD fun b D' _ hD' => hs b D' hD'

theorem delegationsOf_insert {s' : State R} (h : s'.delegatorState = s.delegatorState.insert d D)
    (b : R.Account) :
    s'.delegationsOf b = if b = d then D.delegations else s.delegationsOf b := by
  unfold State.delegationsOf
  rw [h, get_insert]
  split_ifs <;> rfl

end Delegators
section Effects
variable {s s' : State R} (hR : R.Placed) (hs : Books s)
  (hfree : ∀ w a, R.freeBalance w a ≤ maxBalance)

theorem Books.returned {c : R.Account} {top bottom : Delegations R.Account}
    {delegators : StorageMap R.Account (Delegator R.Account)}
    {requests : R.Account → List (ScheduledRequest R.Account)} {world : R.World}
    (hs : Books s) (htop : s.topDelegations.get c = some top)
    (hbottom : s.bottomDelegations.get c = some bottom)
    (h : Returned s (s.settled delegators requests world) c
      ((top.delegations ++ bottom.delegations).map Bond.owner))
    (hinfo : s'.candidateInfo = s.candidateInfo.remove c)
    (hlists : s'.topDelegations = s.topDelegations.remove c ∧
      s'.bottomDelegations = s.bottomDelegations.remove c)
    (hdelegators : s'.delegatorState = delegators)
    (hrequests : s'.delegationScheduledRequests =
      ((s.settled delegators requests world).setRequests c []).delegationScheduledRequests) :
    Books s' := by
  have hall := delegationsTo_eq htop hbottom
  have hshift : Shift s s' (fun b _ => b = c) (fun _ _ _ => False) := by
    constructor
    · intro b d a
      unfold State.delegationsTo
      rw [hlists.1, hlists.2]
      by_cases hb : b = c
      · rw [hb, get_remove_self, get_remove_self]
        simp
      · rw [get_remove_of_ne _ hb, get_remove_of_ne _ hb]
        simp [hb]
    · intro b d a
      have hof : s'.delegationsOf d = (s.settled delegators requests world).delegationsOf d := by
        unfold State.delegationsOf
        rw [hdelegators]
        rfl
      rw [hof, h.mem_delegationsOf]
      have hin : b = c → ⟨b, a⟩ ∈ s.delegationsOf d →
          d ∈ (top.delegations ++ bottom.delegations).map Bond.owner := by
        intro hb hmem
        rw [hb, ← hs.agree, hall] at hmem
        exact List.mem_map.mpr ⟨_, hmem, rfl⟩
      constructor
      · intro ⟨hmem, hnot⟩
        exact .inr ⟨hmem, fun hb => hnot ⟨hin hb hmem, hb⟩⟩
      · rintro (hfalse | ⟨hmem, hb⟩)
        · exact hfalse.elim
        · exact ⟨hmem, fun h => hb h.2⟩
  have hdel : DelegatorsOk s' := by
    unfold DelegatorsOk
    rw [hdelegators]
    exact h.delegators
  refine hs.shift hshift (hs.candidates.remove hinfo hlists.1 hlists.2) hdel ?_ ?_
  · intro b
    rw [hrequests]
    by_cases hb : b = c
    · rw [hb, setRequests_self]
      exact List.nil_sublist _
    · rw [setRequests_other hb, h.requests b hb]
  · intro b r hr
    rw [hrequests] at hr
    refine .inl fun hb => ?_
    rw [hb, setRequests_self] at hr
    cases hr

/-- A delegator changes the delegation to one candidate. -/
theorem Books.change {c d : R.Account} {a b : ℕ} {D D' : Delegator R.Account} (hs : Books s)
    {w : Rework s c [⟨d, a⟩] [⟨d, b⟩]} (hw : w.Stored s')
    (hD : s.delegatorState.get d = some D) (hD' : DelegatorOk R d D')
    (hmem : ∀ x, x ∈ D'.delegations ↔ x = ⟨c, b⟩ ∨ x ∈ D.delegations ∧ x.owner ≠ c)
    (hdelegators : s'.delegatorState = s.delegatorState.insert d D')
    (hsub : ∀ e, (s'.delegationScheduledRequests e).Sublist (s.delegationScheduledRequests e))
    (hno : ∀ r ∈ s'.delegationScheduledRequests c, r.delegator = d →
      ∀ n, r.action ≠ .revoke n) : Books s' := by
  have hshift : Shift s s' (fun e k => e = c ∧ k = d) (fun e k n => e = c ∧ k = d ∧ n = b) := by
    constructor
    · intro e k n
      rw [hw.mem_delegationsTo hs.candidates]
      simp [eq_comm]
    · intro e k n
      rw [delegationsOf_insert hdelegators]
      by_cases hk : k = d
      · rw [if_pos hk, hmem, hk, delegationsOf_eq hD]
        simp
      · rw [if_neg hk]
        simp [hk]
  refine hs.shift hshift (hw.candidatesOk hs.candidates) (hs.delegators.insert hD' hdelegators)
    hsub ?_
  intro e r hr
  by_cases hgone : e = c ∧ r.delegator = d
  · obtain ⟨rfl, hrd⟩ := hgone
    exact .inr ⟨b, ⟨rfl, hrd, rfl⟩, hno r hr hrd⟩
  · exact .inl hgone

section Room
variable {s₁ : State R} {c : R.Account} {bottom bottom₀ : Delegations R.Account}
  {o : List (Bond R.Account)} {less : Option ℕ}

theorem Room.delegatorsOk (h : Room s c bottom o bottom₀ s₁ less) (hs : DelegatorsOk s) :
    DelegatorsOk s₁ := by
  cases h with
  | free => exact hs
  | kicked v => exact v.delegatorsOk hs

theorem Room.mem_delegationsOf (h : Room s c bottom o bottom₀ s₁ less) {b : R.Account}
    {x : Bond R.Account} : x ∈ s₁.delegationsOf b ↔
      x ∈ s.delegationsOf b ∧ ¬ (x.owner = c ∧ ∃ y ∈ o, y.owner = b) := by
  cases h with
  | free => simp
  | kicked v =>
    rw [v.mem_delegationsOf]
    simp only [List.mem_singleton, exists_eq_left]
    tauto

theorem Room.requests (h : Room s c bottom o bottom₀ s₁ less)
    (hs : ∀ b, Distinct ScheduledRequest.delegator (s.delegationScheduledRequests b))
    (b : R.Account) :
    (s₁.delegationScheduledRequests b).Sublist (s.delegationScheduledRequests b) ∧
      ∀ r ∈ s₁.delegationScheduledRequests b, ¬ (b = c ∧ ∃ y ∈ o, y.owner = r.delegator) := by
  cases h with
  | free => simp
  | @kicked k a v hlast =>
    by_cases hb : b = c
    · have hget : v.result.delegationScheduledRequests b =
          dropRequest k (s.delegationScheduledRequests b) := by
        rw [hb]
        exact if_pos rfl
      rw [hget]
      refine ⟨dropRequest_sublist, ?_⟩
      intro r hr ⟨_, y, hy, hyr⟩
      rw [List.mem_singleton.mp hy] at hyr
      exact ne_of_mem_dropRequest (hs b) hr hyr.symm
    · have hget : v.result.delegationScheduledRequests b = s.delegationScheduledRequests b :=
        if_neg hb
      rw [hget]
      exact ⟨.refl _, fun r _ h => hb h.1⟩

end Room

/-- A new delegation goes into both books, and the one it kicks out of both. -/
theorem Books.add {c d : R.Account} {a : ℕ} {m m' : CandidateMetadata}
    {top bottom : Delegations R.Account} {less : Option ℕ} {s₁ : State R}
    {D : Delegator R.Account} (hs : Books s) (hm : s.candidateInfo.get c = some m)
    (htop : s.topDelegations.get c = some top) (hbottom : s.bottomDelegations.get c = some bottom)
    (hadded : Added s c d a m top bottom less m' s₁) (hD : DelegatorOk R d D)
    (hperm : D.delegations.Perm (⟨c, a⟩ :: s.delegationsOf d))
    (hinfo : s'.candidateInfo = s.candidateInfo.insert c m')
    (hlists : s'.topDelegations = s₁.topDelegations ∧ s'.bottomDelegations = s₁.bottomDelegations)
    (hdelegators : s'.delegatorState = s₁.delegatorState.insert d D)
    (hrequests : s'.delegationScheduledRequests = s₁.delegationScheduledRequests) : Books s' := by
  obtain ⟨o, bottom₀, s₀, hroom, w, hstored, hkeep, _⟩ := hadded.rework htop hbottom hm
  have hw : w.Stored s' :=
    ⟨hinfo.trans hstored.info, hlists.1.trans hstored.top, hlists.2.trans hstored.bottom⟩
  rw [hkeep.1] at hdelegators
  rw [hkeep.2] at hrequests
  have hone : OneEach (⟨c, a⟩ :: s.delegationsOf d) := hD.ordered.oneEach.perm hperm
  have hnew : ∀ x ∈ s.delegationsOf d, x.owner ≠ c := (distinct_cons.mp hone).1
  have hshift : Shift s s' (fun e k => e = c ∧ ∃ y ∈ o, y.owner = k)
      (fun e k n => e = c ∧ k = d ∧ n = a) := by
    constructor
    · intro e k n
      rw [hw.mem_delegationsTo hs.candidates]
      simp
    · intro e k n
      rw [delegationsOf_insert hdelegators]
      by_cases hk : k = d
      · rw [if_pos hk, hperm.mem_iff, List.mem_cons, hk]
        have hkeep : ⟨e, n⟩ ∈ s.delegationsOf d ↔
            ⟨e, n⟩ ∈ s.delegationsOf d ∧ ¬ (e = c ∧ ∃ y ∈ o, y.owner = d) :=
          ⟨fun h => ⟨h, fun hc => hnew _ h hc.1⟩, fun h => h.1⟩
        rw [← hkeep]
        simp
      · rw [if_neg hk, hroom.mem_delegationsOf]
        simp [hk]
  have hreq := hroom.requests fun b => (hs.requests b).distinct
  refine hs.shift hshift (hw.candidatesOk hs.candidates)
    ((hroom.delegatorsOk hs.delegators).insert hD hdelegators) ?_ ?_
  · intro b
    rw [hrequests]
    exact (hreq b).1
  · intro b r hr
    rw [hrequests] at hr
    exact .inl ((hreq b).2 r hr)

/-- A delegation that goes out of both books. -/
theorem Books.drop {c d : R.Account} {a : ℕ} (hs : Books s) {w : Rework s c [⟨d, a⟩] []}
    (hw : w.Stored s') (v : Drop s c d a)
    (hdelegators : s'.delegatorState = v.result.delegatorState)
    (hrequests : s'.delegationScheduledRequests = v.result.delegationScheduledRequests) :
    Books s' := by
  have hof : ∀ b, s'.delegationsOf b = v.result.delegationsOf b := by
    intro b
    unfold State.delegationsOf
    rw [hdelegators]
  have hshift : Shift s s' (fun e k => e = c ∧ k = d) (fun _ _ _ => False) := by
    constructor
    · intro e k n
      rw [hw.mem_delegationsTo hs.candidates]
      simp [eq_comm]
    · intro e k n
      rw [hof, v.mem_delegationsOf]
      simp only [false_or]
      tauto
  have hdel : DelegatorsOk s' := by
    unfold DelegatorsOk
    rw [hdelegators]
    exact v.delegatorsOk hs.delegators
  refine hs.shift hshift (hw.candidatesOk hs.candidates) hdel ?_ ?_
  · intro b
    rw [hrequests]
    by_cases hb : b = c
    · have hget : v.result.delegationScheduledRequests b = _ := if_pos hb
      rw [hget, hb]
      exact dropRequest_sublist
    · have hget : v.result.delegationScheduledRequests b = _ := if_neg hb
      rw [hget]
  · intro b r hr
    refine .inl fun ⟨hb, hrd⟩ => ?_
    have hget : v.result.delegationScheduledRequests b = _ := if_pos hb
    rw [hrequests, hget] at hr
    exact ne_of_mem_dropRequest (hs.requests c).distinct hr hrd

/-- A delegator that leaves goes out of both books. -/
theorem Books.leave {d : R.Account} {D : Delegator R.Account} {s₁ : State R} (hs : Books s)
    (hD : s.delegatorState.get d = some D)
    (hleft : Left s s₁ d (D.delegations.map Bond.owner))
    (hto : ∀ c, s'.delegationsTo c = s₁.delegationsTo c) (hcand : CandidatesOk s')
    (hdelegators : s'.delegatorState = s.delegatorState.remove d)
    (hrequests : ∀ c, (s'.delegationScheduledRequests c).Sublist
      (s.delegationScheduledRequests c) ∧
        ∀ r ∈ s'.delegationScheduledRequests c, r.delegator ≠ d) : Books s' := by
  have hshift : Shift s s' (fun _ k => k = d) (fun _ _ _ => False) := by
    constructor
    · intro c k a
      rw [hto, hleft.mem_delegationsTo]
      have hin : k = d → ⟨k, a⟩ ∈ s.delegationsTo c → c ∈ D.delegations.map Bond.owner := by
        intro hk hmem
        rw [hk, hs.agree, delegationsOf_eq hD] at hmem
        exact List.mem_map.mpr ⟨_, hmem, rfl⟩
      constructor
      · intro ⟨hmem, hnot⟩
        exact .inr ⟨hmem, fun hk => hnot ⟨hin hk hmem, hk⟩⟩
      · rintro (hfalse | ⟨hmem, hk⟩)
        · exact hfalse.elim
        · exact ⟨hmem, fun h => hk h.2⟩
    · intro c k a
      unfold State.delegationsOf
      rw [hdelegators]
      by_cases hk : k = d
      · rw [hk, get_remove_self]
        simp
      · rw [get_remove_of_ne _ hk]
        simp [hk]
  have hdel : DelegatorsOk s' := by
    unfold DelegatorsOk
    rw [hdelegators]
    exact forall_remove fun b D' _ hD' => hs.delegators b D' hD'
  exact hs.shift hshift hcand hdel (fun c => (hrequests c).1)
    fun c r hr => .inl ((hrequests c).2 r hr)

include hR hs in
theorem Books.join {c : R.Account} {bond : ℕ} (hc : s.candidateInfo.get c = none)
    (hinfo : s'.candidateInfo = s.candidateInfo.insert c (.new bond))
    (hlists : s'.topDelegations = s.topDelegations.insert c .empty ∧
      s'.bottomDelegations = s.bottomDelegations.insert c .empty)
    (hdelegators : s'.delegatorState = s.delegatorState)
    (hrequests : s'.delegationScheduledRequests = s.delegationScheduledRequests) : Books s' := by
  have hlistsOk := hs.candidates c
  rw [hc] at hlistsOk
  have hnil : s.delegationsTo c = [] := by
    unfold State.delegationsTo
    generalize s.topDelegations.get c = top at hlistsOk
    generalize s.bottomDelegations.get c = bottom at hlistsOk
    cases hlistsOk
    rfl
  have hto : ∀ b, s'.delegationsTo b = s.delegationsTo b := by
    intro b
    by_cases hb : b = c
    · rw [hb, hnil, State.delegationsTo, hlists.1, hlists.2, get_insert_self, get_insert_self]
      rfl
    · unfold State.delegationsTo
      rw [hlists.1, hlists.2, get_insert_of_ne _ _ hb, get_insert_of_ne _ _ hb]
  have hof : s'.delegationsOf = s.delegationsOf := by
    funext d
    unfold State.delegationsOf
    rw [hdelegators]
  refine ⟨hs.candidates.join hinfo hlists.1 hlists.2 hR, ?_, ?_, ?_⟩
  · unfold DelegatorsOk
    rw [hdelegators]
    exact hs.delegators
  · intro b d a
    rw [hto, hof]
    exact hs.agree b d a
  · rw [hrequests, hof]
    exact hs.requests

include hs hfree in
/-- More of a delegation whose revocation is not requested. -/
theorem Books.increase {c d : R.Account} {a more : ℕ} {D : Delegator R.Account}
    {w : Rework s c [⟨d, a⟩] [⟨d, a + more⟩]} (hw : w.Stored s')
    (hD : s.delegatorState.get d = some D) (hmem : ⟨c, a⟩ ∈ D.delegations)
    (hroom : more ≤ R.freeBalance s.world d - D.total)
    (hrevoke : delegationRequestRevokeExists s c d = false)
    (hdelegators : s'.delegatorState = s.delegatorState.insert d
      (D.changed c (satAdd · more) (satAdd D.total more) D.lessTotal))
    (hrequests : s'.delegationScheduledRequests = s.delegationScheduledRequests) : Books s' := by
  have hok := hs.delegators d D hD
  have hmax := hfree s.world d
  have hle := hok.total_le
  have hpos := hok.pos _ hmem
  have hin : a ≤ D.total := by
    rw [hok.total]
    exact amount_le_amounts hmem
  have htotal : satAdd D.total more = D.total + more := satAdd_eq (by omega)
  have hadd : satAdd a more = a + more := satAdd_eq (by omega)
  have hD' : DelegatorOk R d (D.changed c (satAdd · more) (satAdd D.total more) D.lessTotal) := by
    apply changed_ok _ _ _ hok hmem
    · show 0 < satAdd a more
      rw [hadd]
      exact Nat.add_pos_left hpos more
    · show satAdd D.total more + a = D.total + satAdd a more
      omega
    · omega
  refine hs.change hw hD hD' ?_ hdelegators ?_ ?_
  · intro x
    rw [mem_changed _ _ _ hok hmem]
    simp only [hadd]
  · intro b
    rw [hrequests]
  · intro r hr hrd n hn
    rw [hrequests] at hr
    have hno := List.any_eq_false.mp hrevoke r hr
    rw [hn, hrd] at hno
    simp [DelegationAction.isRevoke] at hno

include hs in
/-- Other requests on the delegations there are. -/
theorem Books.rerequest {d : R.Account} {D : Delegator R.Account} {lessTotal : ℕ}
    (hD : s.delegatorState.get d = some D)
    (hlists : ∀ c, s'.delegationsTo c = s.delegationsTo c) (hcandidates : CandidatesOk s')
    (hdelegators : s'.delegatorState =
      s.delegatorState.insert d { D with lessTotal, status := .active })
    (hrequests : ∀ c, RequestsFit c (s'.delegationScheduledRequests c) s.delegationsOf) :
    Books s' := by
  have hok := hs.delegators d D hD
  have hD' : DelegatorOk R d { D with lessTotal, status := .active } :=
    ⟨hok.id, hok.ordered, hok.nonempty, hok.length_le, hok.pos, hok.total, hok.total_le, rfl⟩
  have hof : s'.delegationsOf = s.delegationsOf := by
    funext b
    rw [delegationsOf_insert hdelegators]
    split_ifs with hb
    · rw [hb, delegationsOf_eq hD]
    · rfl
  refine ⟨hcandidates, hs.delegators.insert hD' hdelegators, ?_, ?_⟩
  · intro c b a
    rw [hlists, hof]
    exact hs.agree c b a
  · rw [hof]
    exact hrequests

include hR hfree in
/-- Every accepted call but a decrease keeps the books. -/
theorem Effect.books (h : Effect s s') (hs : Books s) : Books s' := by
  cases h with
  | quiet => exact ⟨hs.candidates, hs.delegators, hs.agree, hs.requests⟩
  | edit pool hm hsame => exact hs.edit hm hsame pool
  | bondMore pool hm _ hsame =>
    have hedit := hs.edit hm hsame pool
    exact ⟨hedit.candidates, hedit.delegators, hedit.agree, hedit.requests⟩
  | bondLess pool hm _ hsame =>
    have hedit := hs.edit hm hsame pool
    exact ⟨hedit.candidates, hedit.delegators, hedit.agree, hedit.requests⟩
  | join _ hc => exact hs.join hR hc rfl ⟨rfl, rfl⟩ rfl rfl
  | leave hm htop hbottom hreturned =>
    exact hs.returned htop hbottom hreturned rfl ⟨rfl, rfl⟩ rfl rfl
  | delegate hm htop hbottom hadded _ hD hperm _ _ =>
    exact hs.add hm htop hbottom hadded hD hperm rfl ⟨rfl, rfl⟩ rfl rfl
  | increase _ w _ hD hmem hroom hrevoke =>
    exact hs.increase hfree (w := w) ⟨rfl, rfl, rfl⟩ hD hmem hroom hrevoke rfl rfl
  | rerequest _ hD hrequests =>
    exact hs.rerequest hD (fun _ => rfl) hs.candidates rfl hrequests
  | revoke w _ v => exact hs.drop (w := w) ⟨rfl, rfl, rfl⟩ v rfl rfl
  | leaveDelegators hD hleft hrequests =>
    exact hs.leave hD hleft (fun _ => rfl) hleft.candidates rfl hrequests

theorem Decreased.books {c d : R.Account} {a less : ℕ} (h : Decreased s s' c d a less)
    (hs : Books s) : Books s' := by
  obtain ⟨w, D, hD, hmem, hless, -, -, rfl⟩ := h.out
  have hok := hs.delegators d D hD
  have hin : a ≤ D.total := by
    rw [hok.total]
    exact amount_le_amounts hmem
  have hle := hok.total_le
  have hD' : DelegatorOk R d (D.changed c (· - less) (D.total - less) (D.lessTotal - less)) := by
    apply changed_ok _ _ _ hok hmem
    · exact Nat.sub_pos_of_lt hless
    · show D.total - less + a = D.total + (a - less)
      omega
    · omega
  have hrequests := (hs.requests c).distinct
  refine hs.change (w := w) ⟨rfl, rfl, rfl⟩ hD hD' (fun x => mem_changed _ _ _ hok hmem) rfl ?_ ?_
  · intro b
    by_cases hb : b = c
    · rw [hb]
      show ((s.setRequests c _).delegationScheduledRequests c).Sublist _
      rw [setRequests_self]
      exact dropRequest_sublist
    · show ((s.setRequests c _).delegationScheduledRequests b).Sublist _
      rw [setRequests_other hb]
  · intro r hr hrd
    have hr' : r ∈ (s.setRequests c _).delegationScheduledRequests c := hr
    rw [setRequests_self] at hr'
    exact absurd hrd (ne_of_mem_dropRequest hrequests hr')

end Effects

section Runs
variable {s : State R} (hR : R.Placed) (hfree : ∀ w a, R.freeBalance w a ≤ maxBalance)

theorem Books.genesis (world : R.World) : Books (State.genesis world) := by
  refine ⟨fun _ => .other, ?_, ?_, ?_⟩
  · intro d D hD
    cases hD
  · intro c d a
    exact iff_of_false List.not_mem_nil List.not_mem_nil
  · intro c
    refine ⟨List.nodup_nil, ?_⟩
    intro r hr
    cases hr

include hR hfree in
theorem Books.step (hs : Books s) (m : Move R) : Books (m.next s) := by
  cases m with
  | call origin call =>
    show Books (call.dispatch origin s).2
    by_cases hok : ∃ u, (call.dispatch origin s).1 = .ok u
    · obtain ⟨u, hu⟩ := hok
      rcases call.dispatch_effect hR hs hfree (Prod.ext hu rfl) with h | ⟨_, _, _, _, _, _, h⟩
      · exact h.books hR hfree hs
      · exact h.books hs
    · rw [Call.dispatch_rollback fun u hu => hok ⟨u, hu⟩]
      exact hs
  | block now => exact ⟨hs.candidates, hs.delegators, hs.agree, hs.requests⟩
  | other world => exact ⟨hs.candidates, hs.delegators, hs.agree, hs.requests⟩

/-- Runs of staking, every move allowed. -/
abbrev Runs (s₀ : State R) (tr : List (State R × Move R)) (s : State R) : Prop :=
  Run Move.next (fun _ _ => True) s₀ tr s

include hR hfree in
theorem Runs.books {world : R.World} {tr : List (State R × Move R)}
    (h : Runs (State.genesis world) tr s) : Books s :=
  h.invariant (Books.genesis world) fun _ m hs _ => hs.step hR hfree m

end Runs

/-- The delegators and the candidates have the same delegations, within their bounds. -/
structure Agreement (s : State R) : Prop where
  bonds : ∀ d c a, (∃ D, s.delegatorState.get d = some D ∧ ⟨c, a⟩ ∈ D.delegations) ↔
    ∃ m top bottom, s.candidateInfo.get c = some m ∧ s.topDelegations.get c = some top ∧
      s.bottomDelegations.get c = some bottom ∧
      top.delegations.count ⟨d, a⟩ + bottom.delegations.count ⟨d, a⟩ = 1
  candidate : ∀ c m, s.candidateInfo.get c = some m → ∃ top bottom,
    s.topDelegations.get c = some top ∧ s.bottomDelegations.get c = some bottom ∧
    OneEach (top.delegations ++ bottom.delegations) ∧
    m.delegationCount = top.delegations.length + bottom.delegations.length ∧
    top.delegations.length ≤ R.maxTopDelegationsPerCandidate ∧
    bottom.delegations.length ≤ R.maxBottomDelegationsPerCandidate
  other : ∀ c, s.candidateInfo.get c = none →
    s.topDelegations.get c = none ∧ s.bottomDelegations.get c = none
  delegator : ∀ d D, s.delegatorState.get d = some D → OneEach D.delegations ∧
    D.delegations.length ≤ R.maxDelegationsPerDelegator ∧ D.total = amounts D.delegations ∧
    D.delegations ≠ []

/-- What the books say, spelled out. -/
theorem Books.agreement {s : State R} (hs : Books s) (hmax : 1 ≤ R.maxDelegationsPerDelegator) :
    Agreement s := by
  constructor
  · intro d c a
    constructor
    · intro ⟨D, hD, hmem⟩
      rw [← delegationsOf_eq hD, ← hs.agree] at hmem
      obtain ⟨m, hm⟩ := hs.candidates.candidate_of_mem hmem
      obtain ⟨top, bottom, htop, hbottom, hr, -⟩ := hs.candidates.lists hm
      rw [delegationsTo_eq htop hbottom] at hmem
      refine ⟨m, top, bottom, hm, htop, hbottom, ?_⟩
      rw [← List.count_append]
      exact List.count_eq_one_of_mem (List.Nodup.of_map _ hr.oneEach) hmem
    · intro ⟨m, top, bottom, hm, htop, hbottom, hcount⟩
      have hmem : ⟨d, a⟩ ∈ s.delegationsTo c := by
        rw [delegationsTo_eq htop hbottom]
        apply List.count_pos_iff.mp
        rw [List.count_append]
        omega
      exact delegator_of_mem ((hs.agree c d a).mp hmem)
  · intro c m hm
    obtain ⟨top, bottom, htop, hbottom, hr, hmirrors⟩ := hs.candidates.lists hm
    exact ⟨top, bottom, htop, hbottom, hr.oneEach, hmirrors.count, hr.top_le, hr.bottom_le⟩
  · intro c hc
    have hlists := hs.candidates c
    rw [hc] at hlists
    generalize s.topDelegations.get c = top at hlists ⊢
    generalize s.bottomDelegations.get c = bottom at hlists ⊢
    cases hlists
    exact ⟨rfl, rfl⟩
  · intro d D hD
    have hok := hs.delegators d D hD
    have hlen := hok.length_le
    rw [Nat.max_eq_right hmax] at hlen
    exact ⟨hok.ordered.oneEach, hlen, hok.total, hok.nonempty⟩

/-- In every state reached, both views of the delegations agree. -/
theorem views_agree (hR : R.Proper) (hfree : ∀ w a, R.freeBalance w a ≤ maxBalance)
    {world : R.World} {tr : List (State R × Move R)} {s : State R}
    (h : Runs (State.genesis world) tr s) : Agreement s :=
  (h.books hR.placed hfree).agreement hR.maxDelegations_pos

section Witness
open Staking.Sample

/-- Account 4 takes the top place of account 2, which takes the bottom place of account 3. -/
def crowded : List (Move (runtime 1)) :=
  [user 1 (.joinCandidates 10 0), user 2 (.delegate (1 : ℕ) 20 0 0),
    user 3 (.delegate (1 : ℕ) 10 1 0), user 4 (.delegate (1 : ℕ) 30 2 0)]

theorem views_agree_crowded : Agreement (after crowded) :=
  views_agree runtime_proper (fun _ => freeBalance_le) (Run.play fun _ _ => trivial)

/-- Account 3 delegates nothing to account 1, and something to account 2, which leaves. -/
def stub : List (Move (runtime 0)) :=
  [user 1 (.joinCandidates 10 0), user 2 (.joinCandidates 10 1), user 3 (.delegate (1 : ℕ) 0 0 0),
    user 3 (.delegate (2 : ℕ) 5 0 1), user 2 (.scheduleLeaveCandidates 2), .block 10,
    user 4 (.executeLeaveCandidates (2 : ℕ) 1)]

/-- The state of account 3 goes with its total, and its delegation of nothing stays. -/
theorem views_disagree : ¬ ∀ R : Runtime, R.Lawful → 0 < R.minDelegation →
    1 ≤ R.maxTopDelegationsPerCandidate → 1 ≤ R.maxBottomDelegationsPerCandidate →
    1 ≤ R.maxDelegationsPerDelegator → ∀ (world : R.World) (tr : List (State R × Move R))
    (s : State R), Runs (State.genesis world) tr s → Agreement s := by
  intro h
  have hagree : Agreement (after stub) := h (runtime 0) (runtime_lawful 0) (by decide) (by decide)
    (by decide) (by decide) _ _ _ (Run.play fun _ _ => trivial)
  have hinfo : ((after stub).candidateInfo.get (1 : ℕ)).isSome = true := by decide +kernel
  have htop : (after stub).topDelegations.get (1 : ℕ) = some ⟨[⟨(3 : ℕ), 0⟩], 0⟩ := by
    decide +kernel
  have hbottom : (after stub).bottomDelegations.get (1 : ℕ) = some .empty := by decide +kernel
  have hnone : (after stub).delegatorState.get (3 : ℕ) = none := by decide +kernel
  obtain ⟨m, hm⟩ := Option.isSome_iff_exists.mp hinfo
  obtain ⟨D, hD, _⟩ := (hagree.bonds (3 : ℕ) (1 : ℕ) 0).mpr
    ⟨m, _, _, hm, htop, hbottom, by decide +kernel⟩
  rw [hnone] at hD
  cases hD

end Witness

end Staking
end ZkNft
