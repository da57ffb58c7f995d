import ZkNft.CollatorSelection.Eviction

/-! What the performance map of a session counts: the blocks authored since the session began. An
eviction judges candidates by these counts. -/

namespace ZkNft
namespace CollatorSelection

variable {Account World : Type} [LinearOrder Account] {R : Runtime Account World}
  {s s' : State R} {m : Move R} {who : Account}

/-- The validators that a session began with, and the authors of its blocks. -/
structure Roll (Account : Type) where
  validators : List Account
  authors : List Account

namespace Roll

def empty : Roll Account := ⟨[], []⟩

def Recorded (r : Roll Account) (who : Account) : Prop := who ∈ r.validators ∨ who ∈ r.authors

instance (r : Roll Account) (who : Account) : Decidable (r.Recorded who) :=
  inferInstanceAs (Decidable (_ ∨ _))

/-- The blocks of an account, as far as 32 bits hold their number. -/
def blocks (r : Roll Account) (who : Account) : ℕ := min (r.authors.count who) (2 ^ 32 - 1)

def next (r : Roll Account) (s : State R) : Move R → Roll Account
  | .newSession =>
    ⟨(R.validators (CollatorSelection.newSession s).2.world).map R.accountIdOf, []⟩
  | .noteAuthor author => { r with authors := r.authors ++ [author] }
  | .call _ _ => r
  | .other _ => r

end Roll

/-- The roll of the session that a history ends in. -/
def roll (tr : List (State R × Move R)) : Roll Account :=
  tr.foldl (fun r x => r.next x.1 x.2) .empty

/-- A session has no fewer validators than accounts were recorded in the one before. -/
def Move.Staffed (s : State R) : Move R → Prop
  | .newSession => s.blocksPerCollatorThisSession.entries.length ≤
      (R.validators (CollatorSelection.newSession s).2.world).length
  | _ => True

/-- The performance map holds the counts of a roll. -/
def State.Counts (s : State R) (r : Roll Account) : Prop :=
  ∀ who, s.blocksPerCollatorThisSession.get who =
    if r.Recorded who then some (r.blocks who) else none

section Frame

omit [LinearOrder Account] in
theorem performance_write {f : State R → State R}
    (h : (Tx.modify f : Update R PUnit) s = (.ok ⟨⟩, s'))
    (hf : (f s).blocksPerCollatorThisSession = s.blocksPerCollatorThisSession) :
    s'.blocksPerCollatorThisSession = s.blocksPerCollatorThisSession := by
  rw [Tx.modify_ok.mp h, hf]

theorem register_performance (h : register who s = (.ok ⟨⟩, s')) :
    s'.blocksPerCollatorThisSession = s.blocksPerCollatorThisSession := by
  obtain ⟨-, -, world, -, rfl⟩ := register_ok h
  rfl

theorem tryRemoveCandidate_performance (h : tryRemoveCandidate who s = (.ok ⟨⟩, s')) :
    s'.blocksPerCollatorThisSession = s.blocksPerCollatorThisSession := by
  have hdoes := tryRemoveCandidate_does who s
  rw [h] at hdoes
  cases hdoes with
  | removed c hc hw => rfl

theorem Call.run_performance {origin : Origin Account} {c : Call R}
    (h : c.run origin s = (.ok ⟨⟩, s')) :
    s'.blocksPerCollatorThisSession = s.blocksPerCollatorThisSession := by
  cases c with
  | setInvulnerables new => exact checked h fun _ h => performance_write h rfl
  | setDesiredCandidates max => exact checked h fun _ h => performance_write h rfl
  | setCandidacyBond bond => exact checked h fun _ h => performance_write h rfl
  | registerAsCandidate => exact checked h fun _ h => register_performance h
  | registerCandidate newCandidate => exact checked h fun _ h => register_performance h
  | leaveIntent => exact checked h fun _ h => tryRemoveCandidate_performance h
  | removeCollator collator =>
    apply checked h
    intro _ h
    obtain ⟨-, h⟩ := ensure_bind_ok h
    exact tryRemoveCandidate_performance h
  | setEvictionBaseline percentile => exact checked h fun _ h => performance_write h rfl
  | setEvictionTolerance percentage => exact checked h fun _ h => performance_write h rfl

/-- No call writes the performance map. -/
theorem Call.dispatch_performance (origin : Origin Account) (c : Call R) :
    (c.dispatch origin s).2.blocksPerCollatorThisSession = s.blocksPerCollatorThisSession := by
  by_cases hok : (c.dispatch origin s).1 = .ok ⟨⟩
  · exact Call.run_performance (Tx.transactional_run_ok.mp (Tx.run_of_fst hok))
  · have hback : (c.dispatch origin s).2 = s := Tx.transactional_rollback fun _ => hok
    rw [hback]

end Frame

section Step
variable {r : Roll Account}

omit [LinearOrder Account] in
/-- A map within the limit is cleared by the first call. -/
theorem clearLoop_entries {limit : ℕ} {p : KeyOrder R.hash ℕ} (h : p.entries.length ≤ limit) :
    (clearLoop limit 2 [] (R.clear limit none p)).entries = [] := by
  have hdone := R.clear_within limit p h
  simp only [clearLoop, hdone]
  exact R.clear_none limit none p hdone

theorem get_insertAll (validators : List R.ValidatorId) (p : KeyOrder R.hash ℕ) (who : Account) :
    (validators.foldl (fun p v => p.insert (R.accountIdOf v) 0) p).get who =
      if who ∈ validators.map R.accountIdOf then some 0 else p.get who := by
  induction validators generalizing p with
  | nil => rfl
  | cons v vs ih =>
    rw [List.foldl_cons, ih, KeyOrder.get_insert R.hash_injective, List.map_cons]
    by_cases hvs : who ∈ vs.map R.accountIdOf
    · rw [if_pos hvs, if_pos (List.mem_cons_of_mem _ hvs)]
    · by_cases hv : who = R.accountIdOf v
      · rw [if_neg hvs, if_pos hv, if_pos (List.mem_cons.mpr (.inl hv))]
      · rw [if_neg hvs, if_neg hv, if_neg]
        intro hmem
        exact (List.mem_cons.mp hmem).elim hv hvs

/-- A reset records the validators at 0 blocks. -/
theorem resetCollatorPerformance_counts
    (h : s.blocksPerCollatorThisSession.entries.length ≤ (R.validators s.world).length) :
    s.resetCollatorPerformance.Counts ⟨(R.validators s.world).map R.accountIdOf, []⟩ := by
  intro who
  have hempty : (clearLoop (R.validators s.world).length 2 []
      (R.clear (R.validators s.world).length none s.blocksPerCollatorThisSession)).get who =
        none := by
    rw [KeyOrder.get, clearLoop_entries h]
    rfl
  rw [State.resetCollatorPerformance, get_insertAll, hempty]
  simp [Roll.Recorded, Roll.blocks]

theorem State.Counts.noteAuthor (h : s.Counts r) (author : Account) :
    (s.noteAuthor author).Counts { r with authors := r.authors ++ [author] } := by
  intro who
  rw [State.noteAuthor, KeyOrder.get_insert R.hash_injective, h, h]
  by_cases hwho : who = author
  · subst hwho
    have hcount : (if r.Recorded who then some (r.blocks who) else none).getD 0 =
        r.blocks who := by
      split_ifs with hrec
      · rfl
      · have hzero := List.count_eq_zero.mpr fun hmem => hrec (.inr hmem)
        simp [Roll.blocks, hzero]
    have hrec : Roll.Recorded { r with authors := r.authors ++ [who] } who :=
      .inr (List.mem_append_right _ List.mem_cons_self)
    have hblocks : min (r.blocks who + 1) (2 ^ 32 - 1) =
        Roll.blocks { r with authors := r.authors ++ [who] } who := by
      simp only [Roll.blocks, List.count_append, List.count_singleton_self]
      omega
    rw [if_pos rfl, hcount, if_pos hrec, hblocks]
  · have hrec : Roll.Recorded { r with authors := r.authors ++ [author] } who ↔
        r.Recorded who := by
      simp [Roll.Recorded, hwho]
    have hblocks : Roll.blocks { r with authors := r.authors ++ [author] } who =
        r.blocks who := by
      simp [Roll.blocks, Ne.symm hwho]
    simp only [if_neg hwho, hrec, hblocks]

theorem newSession_counts (hR : R.Reserves) (hnodup : s.candidateIds.Nodup)
    (hm : Move.Staffed s .newSession) :
    (newSession s).2.Counts
      ⟨(R.validators (newSession s).2.world).map R.accountIdOf, []⟩ := by
  obtain ⟨removed, s₁, hrun, -, hrest, -⟩ := newSession_evicts hR hnodup
  have hkept : s₁.blocksPerCollatorThisSession = s.blocksPerCollatorThisSession := by
    rw [hrest]
  rw [Move.Staffed, hrun, ← hkept] at hm
  rw [hrun]
  exact resetCollatorPerformance_counts hm

theorem State.Counts.next (hR : R.Reserves) (hnodup : s.candidateIds.Nodup) (h : s.Counts r)
    (hm : m.Staffed s) : (m.next s).Counts (r.next s m) := by
  cases m with
  | call origin c =>
    intro who
    rw [Move.next, Call.dispatch_performance]
    exact h who
  | noteAuthor author => exact h.noteAuthor author
  | newSession => exact newSession_counts hR hnodup hm
  | other world => exact h

end Step

section Runs
variable {tr : List (State R × Move R)} {s₀ : State R} {config : GenesisConfig R} {world : World}

theorem roll_snoc (tr : List (State R × Move R)) (s : State R) (m : Move R) :
    roll (tr ++ [(s, m)]) = (roll tr).next s m := by
  rw [roll, List.foldl_append]
  rfl

theorem run_counts (hR : R.Reserves) (h₀ : config.build world = .ok s₀)
    (h : Run Move.next Move.Staffed s₀ tr s) : s.Counts (roll tr) := by
  induction h with
  | nil =>
    intro who
    rw [(build_ok h₀).2.2]
    simp [roll, Roll.empty, Roll.Recorded]
  | @snoc tr s m hrun hm ih =>
    rw [roll_snoc]
    exact ih.next hR (run_nodup h₀ hrun) hm

theorem State.Counts.entries {r : Roll Account} (h : s.Counts r) :
    s.blocksPerCollatorThisSession.entries.Perm
      ((r.validators ++ r.authors).dedup.map fun who => (who, r.blocks who)) := by
  have hleft : s.blocksPerCollatorThisSession.entries.Nodup :=
    List.Nodup.of_map _ s.blocksPerCollatorThisSession.keys_nodup
  have hright : ((r.validators ++ r.authors).dedup.map fun who => (who, r.blocks who)).Nodup := by
    apply List.Nodup.map _ (List.nodup_dedup _)
    intro a b hab
    exact congrArg Prod.fst hab
  refine (List.perm_ext_iff_of_nodup hleft hright).mpr ?_
  rintro ⟨who, blocks⟩
  rw [← KeyOrder.get_eq_some_iff, h]
  simp only [List.mem_map, List.mem_dedup, List.mem_append, Prod.mk.injEq]
  constructor
  · intro hsome
    split_ifs at hsome with hrec
    exact ⟨who, hrec, rfl, Option.some.inj hsome⟩
  · rintro ⟨_, hrec, rfl, rfl⟩
    exact if_pos hrec

/-- The map of a session counts, up to 32 bits, the blocks that each of its validators and authors
made since it began. The next session drops exactly the candidates recorded there with fewer blocks
than the threshold, which is taken from these counts. -/
theorem evictions_by_authored_blocks (hR : R.Reserves) (h₀ : config.build world = .ok s₀)
    (h : Run Move.next Move.Staffed s₀ tr s) :
    (∀ who, s.blocksPerCollatorThisSession.get who =
        if (roll tr).Recorded who then some ((roll tr).blocks who) else none) ∧
      s.counts.Perm (((roll tr).validators ++ (roll tr).authors).dedup.map (roll tr).blocks) ∧
      ∀ who ∈ s.candidateIds, (who ∉ (newSession s).2.candidateIds ↔
        (roll tr).Recorded who ∧ ∃ below, s.evictBelow = some below ∧
          (roll tr).blocks who < below) := by
  have hcounts := run_counts hR h₀ h
  refine ⟨hcounts, ?_, ?_⟩
  · have hperm := hcounts.entries.map Prod.snd
    rw [List.map_map] at hperm
    exact (List.perm_insertionSort _ _).trans hperm
  · intro who hwho
    obtain ⟨removed, s₁, hrun, hret, -, hremoved⟩ := newSession_evicts hR (run_nodup h₀ h)
    have hids : (newSession s).2.candidateIds = s₁.candidateIds := by
      rw [hrun]
      rfl
    have hunder : s.Underperforms who ↔ (roll tr).Recorded who ∧
        ∃ below, s.evictBelow = some below ∧ (roll tr).blocks who < below := by
      unfold State.Underperforms
      rw [hcounts who]
      constructor
      · rintro ⟨below, blocks, hbelow, hget, hlow⟩
        split_ifs at hget with hrec
        obtain rfl := Option.some.inj hget
        exact ⟨hrec, below, hbelow, hlow⟩
      · rintro ⟨hrec, below, hbelow, hlow⟩
        exact ⟨below, _, hbelow, if_pos hrec, hlow⟩
    rw [hids, hret.candidateIds, List.mem_filter, ← hunder]
    simp [hwho, hremoved]

end Runs

namespace Sample

theorem idle_staffed : Run Move.next Move.Staffed opening (trace Move.next opening idle)
    (idle.foldl Move.next opening) := by
  refine Run.play ?_
  simp only [idle, trace, List.forall_mem_cons]
  exact ⟨trivial, Nat.zero_le _, trivial, by simp⟩

end Sample

open CollatorSelection.Sample in
theorem evictions_by_authored_blocks_idle :
    (∀ who, (idle.foldl Move.next opening).blocksPerCollatorThisSession.get who =
        if (roll (trace Move.next opening idle)).Recorded who then
          some ((roll (trace Move.next opening idle)).blocks who) else none) ∧
      (idle.foldl Move.next opening).counts.Perm
        (((roll (trace Move.next opening idle)).validators ++
          (roll (trace Move.next opening idle)).authors).dedup.map
            (roll (trace Move.next opening idle)).blocks) ∧
      ∀ who ∈ (idle.foldl Move.next opening).candidateIds,
        (who ∉ (newSession (idle.foldl Move.next opening)).2.candidateIds ↔
          (roll (trace Move.next opening idle)).Recorded who ∧
            ∃ below, (idle.foldl Move.next opening).evictBelow = some below ∧
              (roll (trace Move.next opening idle)).blocks who < below) := by
  have h₀ : config.build (fun _ => (100, 0)) = .ok opening := rfl
  exact evictions_by_authored_blocks bank_reserves h₀ idle_staffed

end CollatorSelection
end ZkNft
