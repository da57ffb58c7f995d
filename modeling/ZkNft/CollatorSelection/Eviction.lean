import ZkNft.CollatorSelection.Deposits

/-! Which candidates a new session evicts, whatever the order that the sort leaves equal counts
in. -/

namespace KeyOrder
variable {K V : Type*} {rank : K → ℕ}

theorem keys_nodup (m : KeyOrder rank V) : (m.entries.map Prod.fst).Nodup := by
  rw [List.Nodup, List.pairwise_map]
  apply m.sorted.imp
  intro a b hlt heq
  rw [heq] at hlt
  exact Nat.lt_irrefl _ hlt

/-- The map holds what is listed. -/
theorem get_eq_some_iff [DecidableEq K] {m : KeyOrder rank V} {k : K} {v : V} :
    m.get k = some v ↔ (k, v) ∈ m.entries := by
  have hkeys := m.keys_nodup
  unfold get
  generalize m.entries = es at hkeys
  induction es with
  | nil => simp
  | cons e es ih =>
    have ⟨hhead, hrest⟩ := List.nodup_cons.mp hkeys
    by_cases hk : e.1 = k
    · subst hk
      have hnot : (e.1, v) ∉ es := fun h => hhead (List.mem_map.mpr ⟨_, h, rfl⟩)
      simp [hnot, Prod.ext_iff, eq_comm]
    · have hne : (k, v) ≠ e := by
        rintro rfl
        exact hk rfl
      rw [List.find?_cons_of_neg (by simpa using hk), List.mem_cons]
      exact (ih hrest).trans (or_iff_right hne).symm

end KeyOrder

namespace ZkNft
namespace CollatorSelection

variable {Account World : Type} [LinearOrder Account] {R : Runtime Account World}
  {s s' : State R} {who : Account}

section Slice
variable {α : Type} {l : List (α × ℕ)} {k : ℕ} {e b : α × ℕ}

/-- Before the entry at a rank of a sorted list are all that are smaller. -/
theorem mem_take_of_lt (h : l.Pairwise fun a b => a.2 ≤ b.2) (hb : l[k]? = some b) (he : e ∈ l)
    (hlt : e.2 < b.2) : e ∈ l.take k := by
  rw [← List.take_append_drop k l] at h he
  rcases List.mem_append.mp he with he | he
  · exact he
  · obtain ⟨hk, hget⟩ := List.getElem?_eq_some_iff.mp hb
    rw [List.drop_eq_getElem_cons hk, hget] at h he
    have hrest := List.pairwise_cons.mp (List.pairwise_append.mp h).2.1
    rcases List.mem_cons.mp he with rfl | he
    · exact absurd hlt (Nat.lt_irrefl _)
    · exact absurd hlt (Nat.not_lt_of_le (hrest.1 e he))

end Slice

/-- The account has recorded too few blocks. -/
def State.Underperforms (s : State R) (who : Account) : Prop :=
  ∃ below blocks, s.evictBelow = some below ∧
    s.blocksPerCollatorThisSession.get who = some blocks ∧ blocks < below

section Walk
variable {candidates : List (CandidateInfo Account)} {es : List (Account × ℕ)}

/-- The walk removes the candidates below the threshold, in its order. -/
theorem kick_exact (hR : R.Reserves) (below : ℕ) (hkeys : (es.map Prod.fst).Nodup)
    (h : s.candidateIds.Nodup)
    (hsame : ∀ e ∈ es, (candidates.any fun c => c.who = e.1) = true ↔ e.1 ∈ s.candidateIds) :
    (kick candidates below es s).1 =
        (es.filter fun e => e.2 < below ∧ e.1 ∈ s.candidateIds).map Prod.fst ∧
      Returned (kick candidates below es s).1 s (kick candidates below es s).2 ∧
      SameRest s (kick candidates below es s).2 := by
  induction es generalizing s with
  | nil => exact ⟨rfl, .nil s, rfl⟩
  | cons e es ih =>
    have ⟨hfresh, hrest⟩ := List.nodup_cons.mp hkeys
    have ⟨hhead, htail⟩ := List.forall_mem_cons.mp hsame
    unfold kick
    split_ifs with hlow
    all_goals rw [hhead] at hlow
    · rcases tryRemoveCandidate_returned hR h e.1 with ⟨s₁, htry, hret, hframe⟩ | ⟨habs, -⟩
      swap
      · exact absurd hlow.2 habs
      have hsame₁ : ∀ e' ∈ es, e'.1 ∈ s₁.candidateIds ↔ e'.1 ∈ s.candidateIds := by
        intro e' he'
        have hne : e'.1 ≠ e.1 := by
          intro heq
          exact hfresh (heq ▸ List.mem_map_of_mem he')
        rw [hret.candidateIds, List.mem_filter]
        simp [hne]
      have hnodup₁ : s₁.candidateIds.Nodup := by
        rw [hret.candidateIds]
        exact h.filter _
      obtain ⟨hremoved, hrets, hframes⟩ := ih hrest hnodup₁
        fun e' he' => (htail e' he').trans (hsame₁ e' he').symm
      simp only [htry]
      refine ⟨?_, hret.cons hrets, ?_⟩
      · rw [hremoved, List.filter_cons_of_pos (by simpa using hlow), List.map_cons]
        congr 2
        apply List.filter_congr
        intro e' he'
        simp only [hsame₁ e' he']
      · exact hframe.trans hframes
    · obtain ⟨hremoved, hrets, hframes⟩ := ih hrest h htail
      refine ⟨?_, hrets, hframes⟩
      rw [List.filter_cons_of_neg (by simpa using hlow)]
      exact hremoved

end Walk

section Exactness
variable {removed : List Account}

omit [LinearOrder Account] in
theorem slice_keys_nodup (s : State R) : (s.slice.map Prod.fst).Nodup := by
  have hperm := (R.sortByBlocks_perm s.blocksPerCollatorThisSession.entries).map Prod.fst
  exact (hperm.nodup_iff.mpr s.blocksPerCollatorThisSession.keys_nodup).sublist
    ((List.take_sublist _ _).map Prod.fst)

/-- Whoever is below the threshold is in the slice. -/
theorem mem_slice_iff {below blocks : ℕ} (hbelow : s.evictBelow = some below)
    (hlow : blocks < below) :
    (who, blocks) ∈ s.slice ↔ s.blocksPerCollatorThisSession.get who = some blocks := by
  have hsort := (R.sortByBlocks_perm s.blocksPerCollatorThisSession.entries).mem_iff
    (a := (who, blocks))
  rw [KeyOrder.get_eq_some_iff, ← hsort]
  constructor
  · exact fun h => List.mem_of_mem_take h
  · intro h
    have hperf : s.blocksPerCollatorThisSession.entries ≠ [] := by
      intro hnil
      rw [hsort, hnil] at h
      cases h
    have hon := hbelow
    unfold State.evictBelow at hon
    split_ifs at hon with hoff
    have ⟨hbase, htol⟩ := not_or.mp hoff
    obtain ⟨b, hb, hbelow'⟩ := evictBelow_eq hbase htol hperf
    have hle := PerThing.mulCeil_le (p := s.evictionTolerance.leftFromOne) (x := b.2) (by decide)
    rw [hbelow] at hbelow'
    rw [← Option.some.inj hbelow'] at hle
    exact mem_take_of_lt (R.sortByBlocks_sorted _) hb h (Nat.lt_of_lt_of_le hlow hle)

/-- The accounts that an eviction removes. -/
def State.Evicts (s : State R) (removed : List Account) (s' : State R) : Prop :=
  Returned removed s s' ∧ SameRest s s' ∧
    ∀ who, who ∈ removed ↔ who ∈ s.candidateIds ∧ s.Underperforms who

theorem evictBadCollators_evicts (hR : R.Reserves) (h : s.candidateIds.Nodup) :
    ∃ removed s', evictBadCollators s.candidates s = (.ok removed, s') ∧
      s.Evicts removed s' := by
  rw [evictBadCollators_eq]
  cases hbelow : s.evictBelow with
  | none =>
    refine ⟨[], s, rfl, .nil s, rfl, ?_⟩
    intro who
    apply iff_of_false List.not_mem_nil
    rintro ⟨-, below, blocks, hsome, -⟩
    rw [hbelow] at hsome
    cases hsome
  | some below =>
    have hsame : ∀ e ∈ s.slice, (s.candidates.any fun c => c.who = e.1) = true ↔
        e.1 ∈ s.candidateIds := fun e _ => isCandidate_iff
    obtain ⟨hremoved, hret, hrest⟩ := kick_exact hR below (slice_keys_nodup s) h hsame
    refine ⟨_, _, rfl, hret, hrest, ?_⟩
    intro who
    rw [hremoved, List.mem_map]
    constructor
    · rintro ⟨⟨_, blocks⟩, he, rfl⟩
      have ⟨hin, hcond⟩ := List.mem_filter.mp he
      have ⟨hlow, hcand⟩ := of_decide_eq_true hcond
      exact ⟨hcand, below, blocks, hbelow, (mem_slice_iff hbelow hlow).mp hin, hlow⟩
    · rintro ⟨hcand, below', blocks, hbelow', hget, hlow⟩
      obtain rfl := Option.some.inj (hbelow.symm.trans hbelow')
      refine ⟨(who, blocks), List.mem_filter.mpr ⟨?_, decide_eq_true ⟨hlow, hcand⟩⟩, rfl⟩
      exact (mem_slice_iff hbelow hlow).mpr hget

/-- A new session evicts, and starts to count anew. -/
theorem newSession_evicts (hR : R.Reserves) (h : s.candidateIds.Nodup) :
    ∃ removed s₁, (newSession s).2 = s₁.resetCollatorPerformance ∧ s.Evicts removed s₁ := by
  obtain ⟨removed, s₁, hrun, hevicts⟩ := evictBadCollators_evicts hR h
  refine ⟨removed, s₁, ?_, hevicts⟩
  simp only [newSession, Tx.bind_run, Tx.bind, Tx.read_run, hrun]
  rfl

theorem Settles.newSession (hR : R.Reserves) (h : s.candidateIds.Nodup) :
    Settles s (CollatorSelection.newSession s).2 := by
  obtain ⟨removed, s₁, hrun, hret, -⟩ := newSession_evicts hR h
  rw [hrun]
  exact .returned removed ⟨hret.nodup, hret.listed, hret.candidates, hret.reserved, hret.free⟩

end Exactness

section Sorts
variable (sort : List (Account × ℕ) → List (Account × ℕ)) (hperm : ∀ l, (sort l).Perm l)
  (hsorted : ∀ l, (sort l).Pairwise fun a b => a.2 ≤ b.2)

/-- The runtime with another sort. -/
def Runtime.withSort (R : Runtime Account World) : Runtime Account World :=
  { R with
    sortByBlocks := sort
    sortByBlocks_perm := hperm
    sortByBlocks_sorted := hsorted }

def State.withSort (s : State R) : State (R.withSort sort hperm hsorted) :=
  { invulnerables := s.invulnerables
    candidates := s.candidates
    blocksPerCollatorThisSession := s.blocksPerCollatorThisSession
    evictionBaseline := s.evictionBaseline
    evictionTolerance := s.evictionTolerance
    desiredCandidates := s.desiredCandidates
    candidacyBond := s.candidacyBond
    world := s.world }

theorem Runtime.Reserves.withSort (hR : R.Reserves) : (R.withSort sort hperm hsorted).Reserves :=
  ⟨hR.reserve_reserved, hR.unreserve_reserved, hR.unreserve_free, hR.transfer_reserved⟩

end Sorts

/-- Of the candidates of a reachable state, whatever was counted and at whatever percentages, an
eviction removes exactly those with too few blocks, returns them, and gives exactly them their
deposits back. Another sort removes the same accounts and leaves the same candidates and
balances. -/
theorem evictBadCollators_exact (hR : R.Reserves) {config : GenesisConfig R} {world : World}
    {s₀ s₁ : State R} {tr : List (State R × Move R)} (h₀ : config.build world = .ok s₀)
    (hrun : Run Move.next (fun _ _ => True) s₀ tr s₁) (s : State R)
    (hs : s.candidates = s₁.candidates) :
    ∃ removed s', evictBadCollators s.candidates s = (.ok removed, s') ∧
      s.Evicts removed s' ∧
      ∀ sort hperm hsorted, ∃ removed' s'',
        evictBadCollators s.candidates (s.withSort sort hperm hsorted) = (.ok removed', s'') ∧
        removed'.Perm removed ∧ s''.candidates = s'.candidates ∧
        (∀ a, s''.reserved a = s'.reserved a) ∧ ∀ a, s''.free a = s'.free a := by
  have hnodup : s.candidateIds.Nodup := by
    have hids : s.candidateIds = s₁.candidateIds := congrArg (List.map CandidateInfo.who) hs
    rw [hids]
    exact run_nodup h₀ hrun
  obtain ⟨removed, s', hevict, hevicts⟩ := evictBadCollators_evicts hR hnodup
  refine ⟨removed, s', hevict, hevicts, ?_⟩
  intro sort hperm hsorted
  obtain ⟨removed', s'', hevict', hret', -, hwho'⟩ :=
    evictBadCollators_evicts (s := s.withSort sort hperm hsorted)
      (hR.withSort sort hperm hsorted) hnodup
  obtain ⟨hret, -, hwho⟩ := hevicts
  have hsame : ∀ who, who ∈ removed' ↔ who ∈ removed :=
    fun who => (hwho' who).trans (hwho who).symm
  refine ⟨removed', s'', hevict', (List.perm_ext_iff_of_nodup hret'.nodup hret.nodup).mpr hsame,
    ?_, ?_, ?_⟩
  · rw [hret.candidates, hret'.candidates]
    simp only [hsame]
    rfl
  · intro a
    rw [hret.reserved, hret'.reserved]
    simp only [hsame]
    rfl
  · intro a
    rw [hret.free, hret'.free]
    simp only [hsame]
    rfl

namespace Sample

theorem bank_reserves : bank.Reserves where
  reserve_reserved w w' a n h b := by
    simp only [bank] at h
    split_ifs at h
    obtain rfl := Option.some.inj h
    by_cases hb : b = a
    · subst hb
      simp [bank]
    · simp [bank, hb]
  unreserve_reserved w a n b := by
    by_cases hb : b = a
    · subst hb
      simp [bank]
    · simp [bank, hb]
  unreserve_free w a n b := by
    by_cases hb : b = a
    · subst hb
      simp [bank]
    · simp [bank, hb]
  transfer_reserved w w' a b n h c := by
    simp only [bank] at h
    split_ifs at h with hpays
    obtain rfl := Option.some.inj h
    by_cases hb : c = b
    · subst hb
      simp [bank]
    · by_cases ha : c = a
      · subst ha
        simp [bank, hb]
      · simp [bank, ha, hb]

/-- Account 2 is a candidate, and a session passes in which only account 1 makes a block. -/
def idle : List (Move bank) :=
  [.call (.signed 2) .registerAsCandidate, .newSession, .noteAuthor 1]

end Sample

open CollatorSelection.Sample in
theorem evictBadCollators_exact_idle : ∃ removed s',
    evictBadCollators (idle.foldl Move.next opening).candidates (idle.foldl Move.next opening) =
      (.ok removed, s') ∧ (idle.foldl Move.next opening).Evicts removed s' ∧
    ∀ sort hperm hsorted, ∃ removed' s'',
      evictBadCollators (idle.foldl Move.next opening).candidates
        ((idle.foldl Move.next opening).withSort sort hperm hsorted) = (.ok removed', s'') ∧
      removed'.Perm removed ∧ s''.candidates = s'.candidates ∧
      (∀ a, s''.reserved a = s'.reserved a) ∧ ∀ a, s''.free a = s'.free a := by
  have h₀ : config.build (fun _ => (100, 0)) = .ok opening := rfl
  exact evictBadCollators_exact bank_reserves h₀ (Run.play fun _ _ => trivial) _ rfl

end CollatorSelection
end ZkNft
