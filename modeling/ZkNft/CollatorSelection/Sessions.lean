import ZkNft.CollatorSelection.Pallet
import ZkNft.Lib.Run
import Mathlib.Algebra.Order.Floor.Div
import Mathlib.Data.List.Sort
import Mathlib.GroupTheory.GroupAction.Ring

/-! The collators of a new session: the invulnerables, and the candidates that stay. They are
distinct accounts as long as nobody is made an invulnerable twice, or while a candidate. -/

namespace ZkNft
namespace CollatorSelection

variable {Account World : Type} [LinearOrder Account] {R : Runtime Account World}
  {s s' : State R} {who : Account}

theorem isCandidate_iff : s.isCandidate who = true ↔ who ∈ s.candidateIds := by
  simp [State.isCandidate, State.candidateIds]

/-- Of distinct candidates the first with an account is the only one. -/
theorem eraseP_candidate {candidates : List (CandidateInfo Account)}
    (h : (candidates.map CandidateInfo.who).Nodup) :
    (candidates.eraseP fun c => c.who = who) = candidates.filter fun c => c.who ≠ who := by
  induction candidates with
  | nil => rfl
  | cons c cs ih =>
    have ⟨hc, hcs⟩ := List.nodup_cons.mp h
    by_cases hw : c.who = who
    · have hrest : cs.filter (fun c => c.who ≠ who) = cs := by
        rw [List.filter_eq_self]
        intro c' hc'
        apply decide_eq_true
        intro heq
        apply hc
        rw [hw, ← heq]
        exact List.mem_map_of_mem hc'
      rw [List.eraseP_cons_of_pos (by simp [hw]), List.filter_cons_of_neg (by simp [hw]), hrest]
    · rw [List.eraseP_cons_of_neg (by simp [hw]), List.filter_cons_of_pos (by simp [hw]), ih hcs]

/-- A candidate is removed with its deposit, and nobody else is. -/
inductive Removal (who : Account) (s : State R) : Exec DispatchError PUnit × State R → Prop where
  | removed (c : CandidateInfo Account) (hc : c ∈ s.candidates) (hw : c.who = who) :
    Removal who s (.ok ⟨⟩, { s with
      world := R.unreserve s.world who c.deposit
      candidates := s.candidates.eraseP fun c => c.who = who })
  | absent (h : who ∉ s.candidateIds) : Removal who s (.err (.module .notCandidate), s)

theorem tryRemoveCandidate_does (who : Account) (s : State R) :
    Removal who s (tryRemoveCandidate who s) := by
  unfold tryRemoveCandidate
  cases hf : s.candidates.find? fun c => c.who = who with
  | none =>
    have habs : who ∉ s.candidateIds := by
      rw [List.find?_eq_none] at hf
      intro hmem
      obtain ⟨c, hc, hw⟩ := List.mem_map.mp hmem
      exact hf c hc (decide_eq_true hw)
    simp only [Tx.bind_run, Tx.bind, Tx.read_run, hf]
    exact .absent habs
  | some c =>
    have hc := List.mem_of_find?_eq_some hf
    have hw : c.who = who := by simpa using List.find?_some hf
    simp only [Tx.bind_run, Tx.bind, Tx.read_run, hf]
    exact .removed c hc hw

omit [LinearOrder Account] in
theorem ensure_bind_ok {p : State R → Bool} {e : Error} {f : PUnit → Update R PUnit}
    (h : (ensure p e >>= f) s = (.ok ⟨⟩, s')) : p s = true ∧ f ⟨⟩ s = (.ok ⟨⟩, s') := by
  obtain ⟨_, hp, hf⟩ := Tx.read_bind_ok.mp h
  exact ⟨Exec.ensure_eq_ok.mp hp, hf⟩

omit [LinearOrder Account] in
/-- After the origin is checked. -/
theorem checked {α : Type} {P : Prop} {f : State R → Exec DispatchError α}
    {g : α → Update R PUnit} (h : (Tx.read f >>= g) s = (.ok ⟨⟩, s'))
    (hg : ∀ a, g a s = (.ok ⟨⟩, s') → P) : P := by
  obtain ⟨a, _, h⟩ := Tx.read_bind_ok.mp h
  exact hg a h

/-- A registration is of a new account, and reserves the bond in force. -/
theorem register_ok (h : register who s = (.ok ⟨⟩, s')) :
    who ∉ s.invulnerables ∧ who ∉ s.candidateIds ∧ ∃ world,
      R.reserve s.world who s.candidacyBond = some world ∧
      s' = { s with world, candidates := s.candidates ++ [⟨who, s.candidacyBond⟩] } := by
  unfold register at h
  have ⟨_, h⟩ := ensure_bind_ok h
  have ⟨hinv, h⟩ := ensure_bind_ok h
  obtain ⟨validatorKey, _, h⟩ := Tx.read_bind_ok.mp h
  have ⟨_, h⟩ := ensure_bind_ok h
  have ⟨hcand, h⟩ := ensure_bind_ok h
  obtain ⟨world, hworld, h⟩ := Tx.read_bind_ok.mp h
  refine ⟨by simpa [State.isInvulnerable] using hinv, ?_, world, Exec.okOr_eq_ok.mp hworld,
    Tx.modify_ok.mp h⟩
  intro hmem
  rw [isCandidate_iff.mpr hmem] at hcand
  cases hcand

/-- How a step that leaves the invulnerables alone changes who is a candidate. -/
inductive Alters (s s' : State R) : Prop where
  | kept (hi : s'.invulnerables = s.invulnerables) (hc : s'.candidates = s.candidates)
  | joined (hi : s'.invulnerables = s.invulnerables) (c : CandidateInfo Account)
    (hinv : c.who ∉ s.invulnerables) (hcand : c.who ∉ s.candidateIds)
    (hc : s'.candidates = s.candidates ++ [c])
  | left (hi : s'.invulnerables = s.invulnerables) (hc : s'.candidates.Sublist s.candidates)

namespace Alters

omit [LinearOrder Account] in
theorem transactional {x : Update R PUnit} (h : ∀ s', x s = (.ok ⟨⟩, s') → Alters s s') :
    Alters s (Tx.transactional x s).2 := by
  by_cases hok : (Tx.transactional x s).1 = .ok ⟨⟩
  · apply h
    exact Tx.transactional_run_ok.mp (Tx.run_of_fst hok)
  · have hback : (Tx.transactional x s).2 = s := by
      apply Tx.transactional_rollback
      intro a ha
      exact hok ha
    rw [hback]
    exact .kept rfl rfl

theorem register (h : register who s = (.ok ⟨⟩, s')) : Alters s s' := by
  obtain ⟨hinv, hcand, world, -, rfl⟩ := register_ok h
  exact .joined rfl ⟨who, s.candidacyBond⟩ hinv hcand rfl

theorem removed (h : tryRemoveCandidate who s = (.ok ⟨⟩, s')) : Alters s s' := by
  have hdoes := tryRemoveCandidate_does who s
  rw [h] at hdoes
  cases hdoes with
  | removed c hc hw => exact .left rfl List.eraseP_sublist

omit [LinearOrder Account] in
theorem write {f : State R → State R} (h : (Tx.modify f : Update R PUnit) s = (.ok ⟨⟩, s'))
    (hi : (f s).invulnerables = s.invulnerables) (hc : (f s).candidates = s.candidates) :
    Alters s s' := by
  rw [Tx.modify_ok.mp h]
  exact .kept hi hc

theorem run {origin : Origin Account} {c : Call R} (hc : ∀ new, c ≠ .setInvulnerables new)
    (h : c.run origin s = (.ok ⟨⟩, s')) : Alters s s' := by
  cases c with
  | setInvulnerables new => exact absurd rfl (hc new)
  | setDesiredCandidates max => exact checked h fun _ h => write h rfl rfl
  | setCandidacyBond bond => exact checked h fun _ h => write h rfl rfl
  | registerAsCandidate => exact checked h fun _ h => register h
  | registerCandidate newCandidate => exact checked h fun _ h => register h
  | leaveIntent => exact checked h fun _ h => removed h
  | removeCollator collator =>
    apply checked h
    intro _ h
    have ⟨_, h⟩ := ensure_bind_ok h
    exact removed h
  | setEvictionBaseline percentile => exact checked h fun _ h => write h rfl rfl
  | setEvictionTolerance percentage => exact checked h fun _ h => write h rfl rfl

omit [LinearOrder Account] in
theorem nodup (h : s.candidateIds.Nodup) (hs : Alters s s') : s'.candidateIds.Nodup := by
  unfold State.candidateIds
  cases hs with
  | kept _ hc =>
    rw [hc]
    exact h
  | joined _ c _ hcand hc =>
    rw [hc, List.map_append]
    exact List.Nodup.append h (List.nodup_singleton _) (List.disjoint_singleton.mpr hcand)
  | left _ hc => exact (hc.map CandidateInfo.who).nodup h

end Alters

/-- The only call that writes the invulnerables. -/
theorem setInvulnerables_dispatch (origin : Origin Account) (new : List Account) :
    ((Call.setInvulnerables new).dispatch origin s).2 =
      if R.isUpdateOrigin origin then { s with invulnerables := new } else s := by
  unfold Call.dispatch Call.run setInvulnerables ensureUpdateOrigin Tx.transactional
  by_cases h : R.isUpdateOrigin origin = true
  · simp [Tx.bind_run, Tx.bind, Exec.ensure, h]
  · simp [Tx.bind_run, Tx.bind, Exec.ensure, h]

section Eviction

namespace State
variable (s)

/-- The recorded counts of blocks in ascending order. -/
def counts : List ℕ :=
  (s.blocksPerCollatorThisSession.entries.map Prod.snd).insertionSort (· ≤ ·)

/-- A candidate with fewer blocks than this is evicted: the part that is not tolerated to miss of
the count at the rank of the baseline. -/
def evictBelow : Option ℕ :=
  if s.evictionBaseline.parts = 0 ∨ s.evictionTolerance.parts = 100 then none
  else s.counts[(s.evictionBaseline.parts * s.counts.length) ⌈/⌉ 100 - 1]?.map fun blocks =>
    ((100 - s.evictionTolerance.parts) * blocks) ⌈/⌉ 100

/-- What the walk goes through. -/
def slice : List (Account × ℕ) :=
  let performance := R.sortByBlocks s.blocksPerCollatorThisSession.entries
  performance.take (s.evictionBaseline.mulCeil performance.length - 1)

end State

omit [LinearOrder Account] in
/-- However it orders equal counts, a sort leaves the same counts. -/
theorem sortByBlocks_counts (s : State R) :
    (R.sortByBlocks s.blocksPerCollatorThisSession.entries).map Prod.snd = s.counts := by
  have hsorted : ((R.sortByBlocks s.blocksPerCollatorThisSession.entries).map Prod.snd).Pairwise
      (· ≤ ·) := List.pairwise_map.mpr (R.sortByBlocks_sorted _)
  have hperm := ((R.sortByBlocks_perm s.blocksPerCollatorThisSession.entries).map Prod.snd).trans
    (List.perm_insertionSort (· ≤ ·) _).symm
  exact hperm.eq_of_pairwise' hsorted (List.pairwise_insertionSort _ _)

theorem kick_nil (below : ℕ) (es : List (Account × ℕ)) (s : State R) :
    kick [] below es s = ([], s) := by
  induction es with
  | nil => rfl
  | cons e es ih =>
    unfold kick
    rw [if_neg (by simp), ih]

theorem mulCeil_eq_ceilDiv (p : Percent) (x : ℕ) : p.mulCeil x = (p.parts * x) ⌈/⌉ 100 := rfl

omit [LinearOrder Account] in
/-- The entry at the rank of the baseline, and what it makes of the threshold. -/
theorem evictBelow_eq (hbase : s.evictionBaseline.parts ≠ 0)
    (htol : s.evictionTolerance.parts ≠ 100)
    (hperf : s.blocksPerCollatorThisSession.entries ≠ []) :
    ∃ b, (R.sortByBlocks s.blocksPerCollatorThisSession.entries)[s.evictionBaseline.mulCeil
        (R.sortByBlocks s.blocksPerCollatorThisSession.entries).length - 1]? = some b ∧
      s.evictBelow = some (s.evictionTolerance.leftFromOne.mulCeil b.2) := by
  set performance := R.sortByBlocks s.blocksPerCollatorThisSession.entries with hperformance
  have hlen : 0 < performance.length := by
    rw [(R.sortByBlocks_perm _).length_eq]
    exact List.length_pos_iff.mpr hperf
  have hrank := PerThing.mulCeil_le (p := s.evictionBaseline) (x := performance.length) (by decide)
  have hin : s.evictionBaseline.mulCeil performance.length - 1 < performance.length := by omega
  refine ⟨_, List.getElem?_eq_getElem hin, ?_⟩
  have hcounts : s.counts = performance.map Prod.snd := (sortByBlocks_counts s).symm
  rw [State.evictBelow, if_neg (not_or.mpr ⟨hbase, htol⟩), hcounts, List.length_map,
    ← mulCeil_eq_ceilDiv, List.getElem?_map, List.getElem?_eq_getElem hin]
  rfl

/-- An eviction that is on walks through the slice, and no index is out of range. -/
theorem evictBadCollators_eq (candidates : List (CandidateInfo Account)) (s : State R) :
    evictBadCollators candidates s = match s.evictBelow with
      | none => (.ok [], s)
      | some below =>
        (.ok (kick candidates below s.slice s).1, (kick candidates below s.slice s).2) := by
  unfold evictBadCollators
  simp only
  split_ifs with hcands hbase htol hperf
  · subst hcands
    cases s.evictBelow with
    | none => rfl
    | some below => simp only [kick_nil]
  · rw [State.evictBelow, if_pos (.inl hbase)]
  · rw [State.evictBelow, if_pos (.inr htol)]
  · have hcounts : s.counts = [] := by
      unfold State.counts
      rw [hperf]
      rfl
    rw [State.evictBelow, hcounts]
    split_ifs <;> rfl
  · obtain ⟨b, hb, hbelow⟩ := evictBelow_eq hbase htol hperf
    rw [hb, hbelow]
    rfl

theorem tryRemoveCandidate_cases (who : Account) (h : s.candidateIds.Nodup) :
    (∃ s₁, tryRemoveCandidate who s = (.ok ⟨⟩, s₁) ∧ s₁.invulnerables = s.invulnerables ∧
      s₁.candidates = s.candidates.filter fun c => c.who ≠ who) ∨
    ∃ e, tryRemoveCandidate who s = (.err e, s) := by
  have hdoes := tryRemoveCandidate_does who s
  generalize tryRemoveCandidate who s = t at hdoes
  cases hdoes with
  | removed c hc hw => exact Or.inl ⟨_, rfl, rfl, eraseP_candidate h⟩
  | absent habs => exact Or.inr ⟨_, rfl⟩

/-- The walk removes from storage exactly the accounts it returns. -/
theorem kick_removes (candidates : List (CandidateInfo Account)) (evictBelowBlocks : ℕ)
    (es : List (Account × ℕ)) (s : State R) (h : s.candidateIds.Nodup) :
    (kick candidates evictBelowBlocks es s).2.invulnerables = s.invulnerables ∧
    (kick candidates evictBelowBlocks es s).2.candidates = s.candidates.filter fun c =>
      c.who ∉ (kick candidates evictBelowBlocks es s).1 := by
  induction es generalizing s with
  | nil => simp [kick]
  | cons e es ih =>
    unfold kick
    split_ifs with hlow
    · rcases tryRemoveCandidate_cases e.1 h with ⟨s₁, htry, hi₁, hc₁⟩ | ⟨err, htry⟩
      · have hrest : (s₁.candidates.map CandidateInfo.who).Sublist s.candidateIds := by
          rw [hc₁]
          exact List.filter_sublist.map CandidateInfo.who
        have ⟨hi, hf⟩ := ih s₁ (hrest.nodup h)
        simp only [htry, hi, hi₁, hf, hc₁, List.filter_filter]
        refine ⟨trivial, List.filter_congr ?_⟩
        intro c _
        rw [Bool.and_comm, ← Bool.decide_and]
        simp only [List.mem_cons, not_or, ne_eq]
      · simp only [htry]
        exact ih s h
    · exact ih s h

theorem evictBadCollators_removes (h : s.candidateIds.Nodup) :
    ∃ removed s', evictBadCollators s.candidates s = (.ok removed, s') ∧
      s'.invulnerables = s.invulnerables ∧
      s'.candidates = s.candidates.filter fun c => c.who ∉ removed := by
  rw [evictBadCollators_eq]
  cases s.evictBelow with
  | none => exact ⟨[], s, rfl, rfl, by simp⟩
  | some below => exact ⟨_, _, rfl, kick_removes s.candidates below s.slice s h⟩

/-- A new session gets the invulnerables and the candidates its eviction leaves. -/
theorem newSession_ok (h : s.candidateIds.Nodup) :
    ∃ s', newSession s = (.ok (s.invulnerables ++ s'.candidateIds), s') ∧
      s'.invulnerables = s.invulnerables ∧ s'.candidates.Sublist s.candidates := by
  obtain ⟨removed, s₁, hev, hi, hf⟩ := evictBadCollators_removes h
  have hactive : (s.candidates.filterMap fun c =>
      if removed.contains c.who then none else some c.who) = s₁.candidateIds := by
    unfold State.candidateIds
    rw [hf]
    rw [← List.filterMap_eq_map, List.filterMap_filter]
    apply List.filterMap_congr
    intro c _
    by_cases hc : c.who ∈ removed
    · simp [hc]
    · simp [hc]
  refine ⟨s₁.resetCollatorPerformance, ?_, hi, ?_⟩
  · simp only [newSession, Tx.bind_run, Tx.bind, Tx.read_run, hev, hactive,
      State.assembleCollators, hi]
    rfl
  · have heq : s₁.resetCollatorPerformance.candidates = s₁.candidates := rfl
    rw [heq, hf]
    exact List.filter_sublist

end Eviction

section Runs
variable {m : Move R}

/-- Governance lists distinct invulnerables, none of them a candidate. -/
def Move.Listing (s : State R) : Move R → Prop
  | .call origin (.setInvulnerables new) =>
    R.isUpdateOrigin origin = true → new.Nodup ∧ ∀ who ∈ new, who ∉ s.candidateIds
  | _ => True

/-- A move stores the invulnerables that governance lists, or changes at most who is a candidate, as
a new session does too. -/
theorem Move.next_cases (s : State R) (m : Move R) :
    (∃ origin new, m = .call origin (.setInvulnerables new) ∧ R.isUpdateOrigin origin = true ∧
      m.next s = { s with invulnerables := new }) ∨
    m.Listing s ∧ (Alters s (m.next s) ∨ m.next s = (CollatorSelection.newSession s).2) := by
  cases m with
  | call origin c =>
    cases c with
    | setInvulnerables new =>
      have hnext : (Move.call origin (.setInvulnerables new)).next s =
          if R.isUpdateOrigin origin then { s with invulnerables := new } else s :=
        setInvulnerables_dispatch origin new
      by_cases horigin : R.isUpdateOrigin origin = true
      · exact .inl ⟨origin, new, rfl, horigin, hnext.trans (if_pos horigin)⟩
      · right
        rw [hnext, if_neg horigin]
        exact ⟨fun htrue => absurd htrue horigin, .inl (.kept rfl rfl)⟩
    | setDesiredCandidates | setCandidacyBond | registerAsCandidate | registerCandidate
    | leaveIntent | removeCollator | setEvictionBaseline | setEvictionTolerance =>
      exact .inr ⟨trivial, .inl (.transactional fun _ h => Alters.run (by simp) h)⟩
  | noteAuthor author => exact .inr ⟨trivial, .inl (.kept rfl rfl)⟩
  | newSession => exact .inr ⟨trivial, .inr rfl⟩
  | other world => exact .inr ⟨trivial, .inl (.kept rfl rfl)⟩

/-- No account has two entries, whatever the invulnerables are. -/
theorem Move.next_nodup (h : s.candidateIds.Nodup) (m : Move R) :
    (m.next s).candidateIds.Nodup := by
  rcases m.next_cases s with ⟨_, _, -, -, hnext⟩ | ⟨-, halt | hnext⟩
  · rw [hnext]
    exact h
  · exact halt.nodup h
  · obtain ⟨s', hrun, -, hc⟩ := newSession_ok h
    rw [hnext, hrun]
    exact (hc.map CandidateInfo.who).nodup h

/-- Nobody is listed twice, as an invulnerable, as a candidate or as both. -/
structure State.Distinct (s : State R) : Prop where
  invulnerables : s.invulnerables.Nodup
  candidates : s.candidateIds.Nodup
  disjoint : s.invulnerables.Disjoint s.candidateIds

namespace State.Distinct

omit [LinearOrder Account] in
theorem alters (h : s.Distinct) (hs : Alters s s') : s'.Distinct := by
  have hnodup := hs.nodup h.candidates
  cases hs with
  | kept hi hc =>
    have hids : s'.candidateIds = s.candidateIds := congrArg (List.map CandidateInfo.who) hc
    exact ⟨hi ▸ h.invulnerables, hnodup, by rw [hi, hids]; exact h.disjoint⟩
  | joined hi c hinv hcand hc =>
    have hids : s'.candidateIds = s.candidateIds ++ [c.who] := by
      unfold State.candidateIds
      rw [hc, List.map_append]
      rfl
    refine ⟨hi ▸ h.invulnerables, hnodup, ?_⟩
    rw [hi, hids, List.disjoint_append_right]
    exact ⟨h.disjoint, by simpa using hinv⟩
  | left hi hc =>
    have hids : s'.candidateIds.Sublist s.candidateIds := hc.map CandidateInfo.who
    refine ⟨hi ▸ h.invulnerables, hnodup, ?_⟩
    rw [hi]
    exact List.disjoint_of_subset_right hids.subset h.disjoint

theorem newSession (h : s.Distinct) : (CollatorSelection.newSession s).2.Distinct := by
  obtain ⟨s', hrun, hi, hc⟩ := newSession_ok h.candidates
  rw [hrun]
  exact h.alters (.left hi hc)

end State.Distinct

/-- Only governance can bring an account in twice. -/
theorem State.Distinct.next_iff (h : s.Distinct) : (m.next s).Distinct ↔ m.Listing s := by
  rcases m.next_cases s with ⟨origin, new, rfl, horigin, hnext⟩ | ⟨hm, halt | hnext⟩
  · rw [hnext]
    constructor
    · intro hnew _
      exact ⟨hnew.invulnerables, fun who hwho => hnew.disjoint hwho⟩
    · intro hm
      have ⟨hnew, hdisj⟩ := hm horigin
      exact ⟨hnew, h.candidates, hdisj⟩
  · exact iff_of_true (h.alters halt) hm
  · rw [hnext]
    exact iff_of_true h.newSession hm

section Built
variable {config : GenesisConfig R} {world : World}

omit [LinearOrder Account] in
theorem assertThat_eq_ok {p : Bool} {msg : String} {u : PUnit} :
    assertThat p msg = .ok u ↔ p = true := by
  unfold assertThat
  split_ifs with hp <;> simp [hp]

/-- A genesis block has distinct invulnerables, and neither candidates nor counts. -/
theorem build_ok (h : config.build world = .ok s) : s.invulnerables.Nodup ∧ s.candidates = [] ∧
    s.blocksPerCollatorThisSession = .empty := by
  unfold GenesisConfig.build at h
  simp only [Exec.bind_eq_ok, assertThat_eq_ok] at h
  obtain ⟨_, hdup, _, -, _, -, _, -, _, -, h⟩ := h
  cases h
  have hlen := of_decide_eq_true hdup
  have hsub := List.dedup_sublist config.invulnerables
  refine ⟨?_, rfl, rfl⟩
  change config.invulnerables.Nodup
  rw [← hsub.eq_of_length hlen]
  exact List.nodup_dedup _

theorem build_distinct (h : config.build world = .ok s) : s.Distinct := by
  obtain ⟨hnodup, hcands, -⟩ := build_ok h
  have hids : s.candidateIds = [] := congrArg (List.map CandidateInfo.who) hcands
  refine ⟨hnodup, ?_, ?_⟩
  · rw [hids]
    exact List.nodup_nil
  · rw [hids]
    exact List.disjoint_nil_right _

theorem run_nodup {allowed : State R → Move R → Prop} {s₀ : State R}
    {tr : List (State R × Move R)} (h₀ : config.build world = .ok s₀)
    (h : Run Move.next allowed s₀ tr s) : s.candidateIds.Nodup := by
  apply h.invariant (I := fun s => s.candidateIds.Nodup) (build_distinct h₀).candidates
  intro s m hs _
  exact Move.next_nodup hs m

end Built

/-- The session that would start now gets distinct collators: every invulnerable, and of the
candidates those that its eviction leaves. -/
def State.SessionSound (s : State R) : Prop :=
  ∃ collators s', newSession s = (.ok collators, s') ∧ collators.Nodup ∧
    (∀ who ∈ s.invulnerables, who ∈ collators) ∧
    (∀ who ∈ s.candidateIds, who ∈ collators ↔ who ∈ s'.candidateIds) ∧
    ∀ who ∈ collators, who ∈ s.invulnerables ∨ who ∈ s.candidateIds

/-- A candidate that is an invulnerable is a collator twice, or still one after its eviction. -/
theorem sessionSound_iff (h : s.candidateIds.Nodup) : s.SessionSound ↔ s.Distinct := by
  obtain ⟨s', hrun, hi, hc⟩ := newSession_ok h
  have hids : s'.candidateIds.Sublist s.candidateIds := hc.map CandidateInfo.who
  constructor
  · rintro ⟨collators, s₁, hsession, hnodup, -, hleft, -⟩
    rw [hrun] at hsession
    cases hsession
    obtain ⟨hinv, -, hdisj⟩ := List.nodup_append'.mp hnodup
    refine ⟨hinv, h, ?_⟩
    intro who hwho hcand
    exact hdisj hwho ((hleft who hcand).mp (List.mem_append_left _ hwho))
  · intro hd
    refine ⟨_, s', hrun, ?_, ?_, ?_, ?_⟩
    · exact List.Nodup.append hd.invulnerables (hids.nodup h)
        (List.disjoint_of_subset_right hids.subset hd.disjoint)
    · intro who hwho
      exact List.mem_append_left _ hwho
    · intro who hwho
      have hnot : who ∉ s.invulnerables := fun hinv => hd.disjoint hinv hwho
      simp [hnot]
    · intro who hwho
      rcases List.mem_append.mp hwho with hinv | hcand
      · exact Or.inl hinv
      · exact Or.inr (hids.subset hcand)

/-- Every session of a run gets distinct collators if and only if all its lists of invulnerables
are in order. -/
theorem session_collators {config : GenesisConfig R} {world : World} {s₀ : State R}
    {tr : List (State R × Move R)} (h₀ : config.build world = .ok s₀)
    (h : Run Move.next (fun _ _ => True) s₀ tr s) :
    Always State.SessionSound tr s ↔ ∀ x ∈ tr, x.2.Listing x.1 := by
  have hstart := build_distinct h₀
  apply h.always_iff ((sessionSound_iff hstart.candidates).mpr hstart)
  intro tr s m hrun hs _
  have hnodup := run_nodup h₀ hrun
  rw [sessionSound_iff (Move.next_nodup hnodup m)]
  exact ((sessionSound_iff hnodup).mp hs).next_iff

end Runs

namespace Sample

/-- The first call of a block takes out up to `limit` entries. A later one starts over, at entries
that are already gone. -/
def clear (limit : ℕ) : Option (List UInt8) → KeyOrder (fun a : ℕ => a) ℕ →
    KeyOrder (fun a : ℕ => a) ℕ × Option (List UInt8)
  | none, m => (m.drop limit, if m.entries.length ≤ limit then none else some [0])
  | some _, m => (m, some [0])

theorem clear_cursor {limit : ℕ} {cursor : Option (List UInt8)}
    {m : KeyOrder (fun a : ℕ => a) ℕ} {c : List UInt8} (h : (clear limit cursor m).2 = some c) :
    c = [0] := by
  cases cursor with
  | none =>
    simp only [clear, Option.ite_none_left_eq_some, Option.some.injEq] at h
    exact h.2.symm
  | some _ => exact (Option.some.inj h).symm

/-- Free and reserved balances of numbered accounts, all of them with session keys. -/
def bank : Runtime ℕ (ℕ → ℕ × ℕ) where
  ValidatorId := ℕ
  isUpdateOrigin
    | .root => true
    | _ => false
  freeBalance w a := (w a).1
  reservedBalance w a := (w a).2
  minimumBalance := 1
  reserve w a v :=
    if v ≤ (w a).1 then some (Function.update w a ((w a).1 - v, (w a).2 + v)) else none
  unreserve w a v := Function.update w a ((w a).1 + min v (w a).2, (w a).2 - v)
  transfer w a b v :=
    if a ≠ b ∧ v + 1 ≤ (w a).1 then
      some (Function.update (Function.update w a ((w a).1 - v, (w a).2)) b ((w b).1 + v, (w b).2))
    else none
  accountId := 0
  validatorIdOf := some
  accountIdOf v := v
  isRegistered _ _ := true
  validators _ := [1, 2]
  maxCandidates := 10
  maxInvulnerables := 10
  hash a := a
  hash_injective _ _ h := h
  clear := clear
  clear_none limit cursor m h := by
    cases cursor with
    | none =>
      apply List.drop_eq_nil_of_le
      by_contra hmore
      simp [clear, hmore] at h
    | some _ => cases h
  clear_within limit m h := if_pos h
  clear_cursor _ _ _ _ _ _ _ _ h h' := (clear_cursor h).trans (clear_cursor h').symm
  sortByBlocks := List.insertionSort fun a b => a.2 ≤ b.2
  sortByBlocks_perm l := List.perm_insertionSort _ l
  sortByBlocks_sorted l := List.pairwise_insertionSort _ l

def config : GenesisConfig bank :=
  { invulnerables := [1]
    candidacyBond := 5
    evictionBaseline := ⟨80, by decide⟩
    evictionTolerance := ⟨10, by decide⟩
    desiredCandidates := 3 }

def opening : State bank :=
  { invulnerables := [1]
    candidates := []
    blocksPerCollatorThisSession := .empty
    evictionBaseline := ⟨80, by decide⟩
    evictionTolerance := ⟨10, by decide⟩
    desiredCandidates := 3
    candidacyBond := 5
    world := fun _ => (100, 0) }

/-- Account 2 registers and is evicted after a session without a block. Then it is made an
invulnerable. -/
def moves : List (Move bank) :=
  [.call (.signed 2) .registerAsCandidate, .newSession, .noteAuthor 1, .newSession,
    .call .root (.setInvulnerables [1, 2])]

/-- Account 2 registers and is made an invulnerable. -/
def overlap : List (Move bank) :=
  [.call (.signed 2) .registerAsCandidate,
    .call .root (.setInvulnerables [1, 2])]

end Sample

open CollatorSelection.Sample in
theorem session_collators_evicted : (moves.foldl Move.next opening).SessionSound := by
  have hallowed : ∀ x ∈ trace Move.next opening moves, Move.Listing x.1 x.2 := by
    simp only [moves, trace, List.forall_mem_cons]
    exact ⟨trivial, trivial, trivial, trivial, fun _ => ⟨by decide, by decide⟩, by simp⟩
  have h₀ : config.build (fun _ => (100, 0)) = .ok opening := rfl
  exact ((session_collators h₀ (Run.play fun _ _ => trivial)).mpr hallowed).1

open CollatorSelection.Sample in
/-- A candidate that is also made an invulnerable gets the session twice. -/
theorem session_doubled : ∃ s₀ tr s, config.build (fun _ => (100, 0)) = .ok s₀ ∧
    Run Move.next (fun _ _ => True) s₀ tr s ∧
    (newSession s).1 = .ok [1, 2, 2] ∧ ¬ s.SessionSound := by
  have hrun : Run Move.next (fun _ _ => True) opening (trace Move.next opening overlap)
    (overlap.foldl Move.next opening) := Run.play fun _ _ => trivial
  have hlist : (newSession (overlap.foldl Move.next opening)).1 =
      .ok [1, 2, 2] := rfl
  refine ⟨opening, _, _, rfl, hrun, hlist, ?_⟩
  intro ⟨collators, s', hsession, hnodup, _⟩
  rw [hsession] at hlist
  cases hlist
  have hdup : ¬ ([1, 2, 2] : List ℕ).Nodup := by decide
  exact hdup hnodup

end CollatorSelection
end ZkNft
