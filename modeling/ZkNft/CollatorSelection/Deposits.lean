import ZkNft.CollatorSelection.Sessions

/-! The deposits of the candidates: what is reserved when an account registers, and what it gets
back when it is removed. -/

namespace ZkNft
namespace CollatorSelection

variable {Account World : Type} [LinearOrder Account] {R : Runtime Account World}
  {s s' s₁ : State R} {who a : Account}

/-- What the pallet relies on in the currency. -/
structure Runtime.Reserves (R : Runtime Account World) : Prop where
  reserve_reserved : ∀ w w' a n, R.reserve w a n = some w' → ∀ b,
    R.reservedBalance w' b = R.reservedBalance w b + if b = a then n else 0
  unreserve_reserved : ∀ w a n b, R.reservedBalance (R.unreserve w a n) b =
    R.reservedBalance w b - if b = a then n else 0
  unreserve_free : ∀ w a n b, R.freeBalance (R.unreserve w a n) b =
    R.freeBalance w b + if b = a then min n (R.reservedBalance w a) else 0
  transfer_reserved : ∀ w w' a b n, R.transfer w a b n = some w' → ∀ c,
    R.reservedBalance w' c = R.reservedBalance w c

namespace State

/-- The deposit recorded for an account, zero without an entry. -/
def deposit (s : State R) (who : Account) : ℕ :=
  ((s.candidates.find? fun c => c.who = who).map CandidateInfo.deposit).getD 0

def reserved (s : State R) (who : Account) : ℕ := R.reservedBalance s.world who

def free (s : State R) (who : Account) : ℕ := R.freeBalance s.world who

end State

section Entries
variable {candidates : List (CandidateInfo Account)} {c : CandidateInfo Account}

theorem find?_candidate (h : (candidates.map CandidateInfo.who).Nodup) (hc : c ∈ candidates) :
    (candidates.find? fun c' => c'.who = c.who) = some c := by
  induction candidates with
  | nil => cases hc
  | cons c' cs ih =>
    have ⟨hhead, hrest⟩ := List.nodup_cons.mp h
    rcases List.mem_cons.mp hc with rfl | hc
    · exact List.find?_cons_of_pos (decide_eq_true rfl)
    · have hne : c'.who ≠ c.who := by
        intro heq
        rw [heq] at hhead
        exact hhead (List.mem_map_of_mem hc)
      rw [List.find?_cons_of_neg (by simpa using hne), ih hrest hc]

theorem State.deposit_of_mem (h : s.candidateIds.Nodup) (hc : c ∈ s.candidates) :
    s.deposit c.who = c.deposit := by
  unfold State.deposit
  rw [find?_candidate h hc]
  rfl

theorem find?_of_not_mem (h : who ∉ s.candidateIds) :
    (s.candidates.find? fun c => c.who = who) = none := by
  rw [List.find?_eq_none]
  intro c hc heq
  exact h (List.mem_map.mpr ⟨c, hc, of_decide_eq_true heq⟩)

theorem State.deposit_of_not_mem (h : who ∉ s.candidateIds) : s.deposit who = 0 := by
  unfold State.deposit
  rw [find?_of_not_mem h]
  rfl

/-- The deposits of those who stay are as they were. -/
theorem State.deposit_filter {gone : List Account}
    (h : s'.candidates = s.candidates.filter fun c => c.who ∉ gone) (who : Account) :
    s'.deposit who = if who ∈ gone then 0 else s.deposit who := by
  split_ifs with hgone
  · apply State.deposit_of_not_mem
    intro hmem
    obtain ⟨c, hc, rfl⟩ := List.mem_map.mp hmem
    rw [h] at hc
    exact of_decide_eq_true (List.mem_filter.mp hc).2 hgone
  · unfold State.deposit
    rw [h, List.find?_filter]
    congr 3
    funext c
    by_cases hc : c.who = who
    · simp [hc, hgone]
    · simp [hc]

/-- A new entry at the end. -/
theorem State.deposit_append {bond : ℕ} (hnew : who ∉ s.candidateIds)
    (h : s'.candidates = s.candidates ++ [⟨who, bond⟩]) (a : Account) :
    s'.deposit a = if a = who then bond else s.deposit a := by
  unfold State.deposit
  rw [h, List.find?_append]
  split_ifs with ha
  · subst ha
    rw [find?_of_not_mem hnew]
    simp
  · rw [List.find?_cons_of_neg (by simpa using Ne.symm ha)]
    simp

end Entries

/-- The accounts of a list are no candidates any more, and each got its deposit back as far as it
was reserved. Nobody else is touched. -/
structure Returned (gone : List Account) (s s' : State R) : Prop where
  nodup : gone.Nodup
  listed : ∀ who ∈ gone, who ∈ s.candidateIds
  candidates : s'.candidates = s.candidates.filter fun c => c.who ∉ gone
  reserved : ∀ a, s'.reserved a = s.reserved a - if a ∈ gone then s.deposit a else 0
  free : ∀ a, s'.free a = s.free a + if a ∈ gone then min (s.deposit a) (s.reserved a) else 0

namespace Returned
variable {gone : List Account}

theorem nil (s : State R) : Returned [] s s where
  nodup := List.nodup_nil
  listed := by simp
  candidates := by simp
  reserved := by simp
  free := by simp

theorem candidateIds (h : Returned gone s s') :
    s'.candidateIds = s.candidateIds.filter fun who => who ∉ gone := by
  unfold State.candidateIds
  rw [h.candidates, List.filter_map]
  rfl

theorem one {c : CandidateInfo Account} (hR : R.Reserves) (hnodup : s.candidateIds.Nodup)
    (hc : c ∈ s.candidates)
    (hcands : s'.candidates = s.candidates.eraseP fun c' => c'.who = c.who)
    (hworld : s'.world = R.unreserve s.world c.who c.deposit) : Returned [c.who] s s' where
  nodup := List.nodup_singleton _
  listed := by
    rw [List.forall_mem_singleton]
    exact List.mem_map_of_mem hc
  candidates := by
    rw [hcands, eraseP_candidate hnodup]
    simp
  reserved a := by
    unfold State.reserved
    rw [hworld, hR.unreserve_reserved]
    simp only [List.mem_singleton]
    split_ifs with ha
    · rw [ha, State.deposit_of_mem hnodup hc]
    · rfl
  free a := by
    unfold State.free State.reserved
    rw [hworld, hR.unreserve_free]
    simp only [List.mem_singleton]
    split_ifs with ha
    · rw [ha, State.deposit_of_mem hnodup hc]
    · rfl

/-- Those who are removed one after the other are removed together. -/
theorem cons (h : Returned [who] s s₁) (h' : Returned gone s₁ s') :
    Returned (who :: gone) s s' := by
  have hwho : who ∉ gone := by
    intro hmem
    have hin := h'.listed who hmem
    rw [h.candidateIds, List.mem_filter] at hin
    simp at hin
  have hother : ∀ a ∈ gone, a ≠ who := by
    rintro a ha rfl
    exact hwho ha
  have hdeposit : ∀ a ∈ gone, s₁.deposit a = s.deposit a := by
    intro a ha
    rw [State.deposit_filter h.candidates, if_neg]
    rw [List.mem_singleton]
    exact hother a ha
  have hreserved : ∀ a ≠ who, s₁.reserved a = s.reserved a := by
    intro a ha
    rw [h.reserved, if_neg (by simpa using ha), Nat.sub_zero]
  constructor
  · exact List.nodup_cons.mpr ⟨hwho, h'.nodup⟩
  · rw [List.forall_mem_cons]
    refine ⟨h.listed who (List.mem_singleton_self who), ?_⟩
    intro a ha
    have hin := h'.listed a ha
    rw [h.candidateIds, List.mem_filter] at hin
    exact hin.1
  · rw [h'.candidates, h.candidates, List.filter_filter]
    apply List.filter_congr
    intro c _
    simp [Bool.and_comm]
  · intro a
    rw [h'.reserved, h.reserved]
    by_cases ha : a = who
    · subst ha
      simp [hwho]
    · by_cases hgone : a ∈ gone
      · simp [ha, hgone, hdeposit a hgone]
      · simp [ha, hgone]
  · intro a
    rw [h'.free, h.free]
    by_cases ha : a = who
    · subst ha
      simp [hwho]
    · by_cases hgone : a ∈ gone
      · simp [ha, hgone, hdeposit a hgone, hreserved a ha]
      · simp [ha, hgone]

end Returned

section Removal

/-- Only the candidates and the balances may differ. -/
def SameRest (s s' : State R) : Prop :=
  s' = { s with candidates := s'.candidates, world := s'.world }

omit [LinearOrder Account] in
theorem SameRest.trans (h : SameRest s s₁) (h' : SameRest s₁ s') : SameRest s s' := by
  unfold SameRest at *
  rw [h', h]

/-- A removal either returns a deposit, or changes nothing. -/
theorem tryRemoveCandidate_returned (hR : R.Reserves) (h : s.candidateIds.Nodup) (who : Account) :
    (∃ s₁, tryRemoveCandidate who s = (.ok ⟨⟩, s₁) ∧ Returned [who] s s₁ ∧ SameRest s s₁) ∨
    who ∉ s.candidateIds ∧ ∃ e, tryRemoveCandidate who s = (.err e, s) := by
  have hdoes := tryRemoveCandidate_does who s
  generalize tryRemoveCandidate who s = t at hdoes
  cases hdoes with
  | removed c hc hw =>
    subst hw
    exact .inl ⟨_, rfl, .one hR h hc rfl rfl, rfl⟩
  | absent habs => exact .inr ⟨habs, _, rfl⟩

end Removal

/-- How a step of the pallet settles the deposits: it leaves them alone, takes one at the bond in
force, or returns some. -/
inductive Settles (s s' : State R) : Prop where
  | kept (hc : s'.candidates = s.candidates) (hr : ∀ a, s'.reserved a = s.reserved a)
  | joined (who : Account) (hnew : who ∉ s.candidateIds)
    (hc : s'.candidates = s.candidates ++ [⟨who, s.candidacyBond⟩])
    (hr : ∀ a, s'.reserved a = s.reserved a + if a = who then s.candidacyBond else 0)
  | returned (gone : List Account) (h : Returned gone s s')

namespace Settles

/-- Candidates stay distinct. -/
theorem nodup (h : Settles s s') (hnodup : s.candidateIds.Nodup) : s'.candidateIds.Nodup := by
  cases h with
  | kept hc hr =>
    have hids : s'.candidateIds = s.candidateIds := congrArg (List.map CandidateInfo.who) hc
    rw [hids]
    exact hnodup
  | joined who hnew hc hr =>
    have hids : s'.candidateIds = s.candidateIds ++ [who] := by
      unfold State.candidateIds
      rw [hc, List.map_append]
      rfl
    rw [hids]
    exact List.Nodup.append hnodup (List.nodup_singleton who) (by simpa using hnew)
  | returned gone h =>
    rw [h.candidateIds]
    exact hnodup.filter _

/-- What happens to locks does not matter. -/
theorem congr (h : Settles s s₁) (hc : s'.candidates = s₁.candidates)
    (hr : ∀ a, s'.reserved a = s₁.reserved a) (hf : ∀ a, s'.free a = s₁.free a) :
    Settles s s' := by
  cases h with
  | kept hc₁ hr₁ => exact .kept (hc.trans hc₁) fun a => (hr a).trans (hr₁ a)
  | joined who hnew hc₁ hr₁ => exact .joined who hnew (hc.trans hc₁) fun a => (hr a).trans (hr₁ a)
  | returned gone h =>
    exact .returned gone ⟨h.nodup, h.listed, hc.trans h.candidates,
      fun a => (hr a).trans (h.reserved a), fun a => (hf a).trans (h.free a)⟩

/-- Where every deposit is there, it moves with the reserve, and stays there. -/
theorem balanced (h : Settles s s') (hbacked : ∀ a, s.deposit a ≤ s.reserved a) (a : Account) :
    s'.reserved a + s.deposit a = s.reserved a + s'.deposit a ∧ s'.deposit a ≤ s'.reserved a := by
  have hle := hbacked a
  cases h with
  | kept hc hr =>
    have hdeposit : s'.deposit a = s.deposit a := by
      unfold State.deposit
      rw [hc]
    rw [hr, hdeposit]
    exact ⟨rfl, hle⟩
  | joined who hnew hc hr =>
    rw [hr, State.deposit_append hnew hc]
    split_ifs with ha
    · rw [ha] at hle ⊢
      have hzero := State.deposit_of_not_mem hnew
      omega
    · omega
  | returned gone h =>
    rw [h.reserved, State.deposit_filter h.candidates]
    split_ifs <;> omega

/-- An account that loses its place gets its deposit back. -/
theorem repays {c : CandidateInfo Account} (h : Settles s s') (hnodup : s.candidateIds.Nodup)
    (hbacked : ∀ a, s.deposit a ≤ s.reserved a) (hc : c ∈ s.candidates)
    (hgone : c.who ∉ s'.candidateIds) :
    s'.reserved c.who + c.deposit = s.reserved c.who ∧
      s'.free c.who = s.free c.who + c.deposit := by
  have hmem : c.who ∈ s.candidateIds := List.mem_map_of_mem hc
  cases h with
  | kept hc' hr =>
    have hids : s'.candidateIds = s.candidateIds := congrArg (List.map CandidateInfo.who) hc'
    rw [hids] at hgone
    exact absurd hmem hgone
  | joined who hnew hc' hr =>
    apply absurd _ hgone
    unfold State.candidateIds
    rw [hc', List.map_append]
    exact List.mem_append_left _ hmem
  | returned gone h =>
    have hin : c.who ∈ gone := by
      by_contra hstay
      rw [h.candidateIds, List.mem_filter] at hgone
      exact hgone ⟨hmem, decide_eq_true hstay⟩
    have hdeposit := State.deposit_of_mem hnodup hc
    have hle := hbacked c.who
    rw [h.reserved, h.free, if_pos hin, if_pos hin]
    omega

/-- A new entry is of a new account, at the bond in force, which is reserved. -/
theorem takes {c : CandidateInfo Account} (h : Settles s s') (hc : c ∈ s'.candidates)
    (hnew : c ∉ s.candidates) : c.who ∉ s.candidateIds ∧ c.deposit = s.candidacyBond ∧
      s'.reserved c.who = s.reserved c.who + c.deposit := by
  cases h with
  | kept hc' hr =>
    rw [hc'] at hc
    exact absurd hc hnew
  | joined who hfresh hc' hr =>
    rw [hc', List.mem_append, List.mem_singleton] at hc
    obtain rfl := hc.resolve_left hnew
    exact ⟨hfresh, rfl, by rw [hr, if_pos rfl]⟩
  | returned gone h =>
    rw [h.candidates] at hc
    exact absurd (List.mem_filter.mp hc).1 hnew

theorem register (hR : R.Reserves) (h : register who s = (.ok ⟨⟩, s')) : Settles s s' := by
  obtain ⟨-, hnew, world, hworld, rfl⟩ := register_ok h
  exact .joined who hnew rfl (hR.reserve_reserved _ _ _ _ hworld)

theorem remove (hR : R.Reserves) (hnodup : s.candidateIds.Nodup)
    (h : tryRemoveCandidate who s = (.ok ⟨⟩, s')) : Settles s s' := by
  rcases tryRemoveCandidate_returned hR hnodup who with ⟨s₁, hrun, hret, -⟩ | ⟨-, e, hrun⟩
  · rw [hrun] at h
    cases h
    exact .returned [who] hret
  · rw [hrun] at h
    cases h

/-- A write to the rest of the storage. -/
theorem write {f : State R → State R} (h : (Tx.modify f : Update R PUnit) s = (.ok ⟨⟩, s'))
    (hc : (f s).candidates = s.candidates) (hw : (f s).world = s.world) : Settles s s' := by
  rw [Tx.modify_ok.mp h]
  refine .kept hc fun a => ?_
  unfold State.reserved
  rw [hw]

theorem run (hR : R.Reserves) (hnodup : s.candidateIds.Nodup) {origin : Origin Account}
    {c : Call R} (h : c.run origin s = (.ok ⟨⟩, s')) : Settles s s' := by
  cases c with
  | setInvulnerables new => exact checked h fun _ h => write h rfl rfl
  | setDesiredCandidates max => exact checked h fun _ h => write h rfl rfl
  | setCandidacyBond bond => exact checked h fun _ h => write h rfl rfl
  | registerAsCandidate => exact checked h fun _ h => register hR h
  | registerCandidate newCandidate => exact checked h fun _ h => register hR h
  | leaveIntent => exact checked h fun _ h => remove hR hnodup h
  | removeCollator collator =>
    apply checked h
    intro _ h
    have ⟨_, h⟩ := ensure_bind_ok h
    exact remove hR hnodup h
  | setEvictionBaseline percentile => exact checked h fun _ h => write h rfl rfl
  | setEvictionTolerance percentage => exact checked h fun _ h => write h rfl rfl

/-- A call that fails is rolled back. -/
theorem dispatch (hR : R.Reserves) (hnodup : s.candidateIds.Nodup) (origin : Origin Account)
    (c : Call R) : Settles s (c.dispatch origin s).2 := by
  by_cases hok : (c.dispatch origin s).1 = .ok ⟨⟩
  · exact run hR hnodup (Tx.transactional_run_ok.mp (Tx.run_of_fst hok))
  · have hback : (c.dispatch origin s).2 = s := Tx.transactional_rollback fun _ => hok
    rw [hback]
    exact .kept rfl fun _ => rfl

theorem noteAuthor (hR : R.Reserves) (author : Account) : Settles s (s.noteAuthor author) := by
  refine .kept rfl fun a => ?_
  change R.reservedBalance (Option.getD _ s.world) a = _
  generalize hpaid : R.transfer s.world R.accountId author _ = paid
  cases paid with
  | none => rfl
  | some world => exact hR.transfer_reserved _ _ _ _ _ hpaid a

end Settles
end CollatorSelection
end ZkNft
