import ZkNft.MantaPay.Shards

/-! Registering a batch and registering its pairs one at a time. -/

namespace ZkNft
open StorageMap

namespace ProxyLedger
variable {c : Crypto} {model : c.Model} {itemHash : c.ItemHash} {p p₁ p' : PayStorage}
  {es fs : List (Entry c)} {s : Fin 256}

section Grouping

theorem sortedByShard_sorted : (sortedByShard itemHash es).Pairwise (·.1 ≤ ·.1) :=
  List.pairwise_insertionSort _ _

theorem mem_sortedByShard {x : Fin 256 × Entry c} :
    x ∈ sortedByShard itemHash es ↔ x.2 ∈ es ∧ shardIndex itemHash x.2.1 = x.1 := by
  rw [sortedByShard, (List.perm_insertionSort _ _).mem_iff, List.mem_map]
  constructor
  · rintro ⟨e, he, rfl⟩
    exact ⟨he, rfl⟩
  · rintro ⟨he, hs⟩
    exact ⟨x.2, he, by rw [hs]⟩

theorem spread_shardInsertions :
    KeyedFold.spread (shardInsertions itemHash es) = sortedByShard itemHash es :=
  KeyedFold.spread_runs _

theorem flatMap_shardInsertions :
    (shardInsertions itemHash es).flatMap Prod.snd = (sortedByShard itemHash es).map Prod.snd := by
  rw [← spread_shardInsertions, KeyedFold.spread, List.map_flatMap]
  simp [Function.comp_def]

theorem mem_shardInsertions {e : Entry c} :
    e ∈ (shardInsertions itemHash es).flatMap Prod.snd ↔ e ∈ es := by
  rw [flatMap_shardInsertions, List.mem_map]
  constructor
  · rintro ⟨x, hx, rfl⟩
    exact (mem_sortedByShard.mp hx).1
  · intro he
    exact ⟨(shardIndex itemHash e.1, e), mem_sortedByShard.mpr ⟨he, rfl⟩, rfl⟩

/-- Sorting and grouping keep the order of the entries of one shard. -/
theorem onShard_shardInsertions (s : Fin 256) :
    onShard itemHash s ((shardInsertions itemHash es).flatMap Prod.snd) =
      onShard itemHash s es := by
  have hkey : ∀ x ∈ sortedByShard itemHash es,
      decide (shardIndex itemHash x.2.1 = s) = decide (x.1 = s) := fun x hx => by
    rw [(mem_sortedByShard.mp hx).2]
  calc onShard itemHash s ((shardInsertions itemHash es).flatMap Prod.snd)
      = ((sortedByShard itemHash es).filter fun x => x.1 = s).map Prod.snd := by
        rw [flatMap_shardInsertions, onShard, List.filter_map, ← List.filter_congr hkey]
        rfl
    _ = ((es.map fun e => (shardIndex itemHash e.1, e)).filter fun x => x.1 = s).map
          Prod.snd := by
        rw [sortedByShard, KeyedFold.filter_insertionSort]
    _ = onShard itemHash s es := by
        rw [List.filter_map, List.map_map]
        exact List.map_id _

theorem shardInsertions_groups : Groups itemHash (shardInsertions itemHash es) where
  ne_nil := KeyedFold.runs_ne_nil _
  shard g hg e he := by
    have hx : (g.1, e) ∈ KeyedFold.spread (shardInsertions itemHash es) :=
      List.mem_flatMap.mpr ⟨g, hg, List.mem_map.mpr ⟨e, he, rfl⟩⟩
    rw [spread_shardInsertions] at hx
    exact (mem_sortedByShard.mp hx).2
  sorted := KeyedFold.runs_sorted sortedByShard_sorted

theorem Appended.congr (hs : ∀ s, onShard itemHash s es = onShard itemHash s fs)
    (hm : ∀ e, e ∈ es ↔ e ∈ fs) (h : Appended model itemHash p p' es) :
    Appended model itemHash p p' fs where
  shard s := hs s ▸ h.shard s
  utxoSet u := by simp only [h.utxoSet, hm]

theorem FinalRoot.congr (hs : ∀ s, onShard itemHash s es = onShard itemHash s fs) {b : Bytes 32} :
    FinalRoot model itemHash p es b ↔ FinalRoot model itemHash p fs b := by
  simp only [FinalRoot, ShardRoot, hs]

end Grouping

section Lawful
variable (hc : c.Lawful) (hm : loadModel c = .ok model) (hk : loadItemHash c = .ok itemHash)
include hc hm hk

/-- A successful `register_all` appends its pairs and adds the final root of each shard. -/
theorem registerAll_appended {u : PUnit} (h : registerAll es p = (.ok u, p')) :
    Appended model itemHash p p' es ∧ ∀ b, p'.utxoAccumulatorOutputs.containsKey b = true ↔
      p.utxoAccumulatorOutputs.containsKey b = true ∨ FinalRoot model itemHash p es b := by
  simp only [registerAll, Tx.read_bind_ok, Exec.lift_eq_ok, hm, hk, Except.ok.injEq,
    exists_eq_left'] at h
  obtain ⟨happ, hout⟩ := registerShards_appended hc shardInsertions_groups h
  refine ⟨happ.congr onShard_shardInsertions fun _ => mem_shardInsertions, fun b => ?_⟩
  rw [hout, FinalRoot.congr onShard_shardInsertions]

theorem registerAll_total (hr : Room model itemHash p es) :
    ∃ p', registerAll es p = (.ok ⟨⟩, p') := by
  have hr' : Room model itemHash p ((shardInsertions itemHash es).flatMap Prod.snd) := by
    intro s
    rw [onShard_shardInsertions]
    exact hr s
  obtain ⟨u, p', h⟩ := registerShards_total hc shardInsertions_groups hr'
  refine ⟨p', ?_⟩
  simp only [registerAll, Tx.read_bind_ok, Exec.lift_eq_ok, hm, hk, Except.ok.injEq,
    exists_eq_left']
  exact h

end Lawful

section Load
variable (hc : c.Lawful)
include hc

theorem loadModel_total : ∃ model, loadModel c = .ok model := by
  obtain ⟨b, model, hb, hm⟩ := hc.model_loads
  exact ⟨model, Exec.except_bind_eq_ok.mpr ⟨b, by rw [hb]; rfl, by rw [hm]; rfl⟩⟩

theorem loadItemHash_total : ∃ itemHash, loadItemHash c = .ok itemHash := by
  obtain ⟨b, itemHash, hb, hk⟩ := hc.itemHash_loads
  exact ⟨itemHash, Exec.except_bind_eq_ok.mpr ⟨b, by rw [hb]; rfl, by rw [hk]; rfl⟩⟩

end Load

section Frame
variable {u : PUnit}

theorem insertLoop_sameNullifiers {t t' : WorkingTree c}
    (h : insertLoop model itemHash s es t p = (.ok t', p')) : p.SameNullifiers p' := by
  induction es generalizing t p with
  | nil =>
    obtain ⟨-, rfl⟩ := Tx.pure_ok.mp h
    exact ⟨rfl, rfl, rfl⟩
  | cons e es ih =>
    simp only [insertLoop, Tx.read_bind_ok, Tx.modify_bind_ok] at h
    obtain ⟨x, -, utxo, -, note, -, h⟩ := h
    have hsame := ih h
    exact ⟨hsame.1, hsame.2, hsame.3⟩

theorem registerShard_sameNullifiers (h : registerShard model itemHash s es p = (.ok u, p')) :
    p.SameNullifiers p' := by
  simp only [registerShard, Tx.read_bind_ok] at h
  obtain ⟨t, -, h⟩ := h
  obtain ⟨t', p₁, hloop, h⟩ := Tx.bind_run_ok.mp h
  have hsame := insertLoop_sameNullifiers hloop
  simp only [Tx.read_bind_ok] at h
  obtain ⟨stored, -, h⟩ := h
  cases hroot : t'.nextRoot with
  | none =>
    simp only [hroot] at h
    obtain ⟨-, rfl⟩ := Tx.pure_ok.mp h
    exact hsame
  | some root =>
    simp only [hroot, Tx.modify_bind_ok, Tx.read_bind_ok, Tx.modify_ok] at h
    obtain ⟨output, -, rfl⟩ := h
    exact ⟨hsame.1, hsame.2, hsame.3⟩

/-- Registration leaves the nullifier ledger alone. -/
theorem registerAll_sameNullifiers (h : registerAll es p = (.ok u, p')) : p.SameNullifiers p' := by
  have hshards : ∀ model itemHash (gs : List (Fin 256 × List (Entry c))) {p : PayStorage},
      registerShards model itemHash gs p = (.ok u, p') → p.SameNullifiers p' := by
    intro model itemHash gs
    induction gs with
    | nil =>
      intro p h
      obtain ⟨-, rfl⟩ := Tx.pure_ok.mp h
      exact ⟨rfl, rfl, rfl⟩
    | cons g gs ih =>
      intro p h
      obtain ⟨_, p₁, h₁, h₂⟩ := Tx.bind_run_ok.mp h
      exact (registerShard_sameNullifiers h₁).trans (ih h₂)
  simp only [registerAll, Tx.read_bind_ok] at h
  obtain ⟨model, -, itemHash, -, h⟩ := h
  exact hshards model itemHash _ h

end Frame

/-- The trees of the shards that the entries touch take them. -/
def HasRoom (p : PayStorage) (es : List (Entry c)) : Prop :=
  ∃ model itemHash, loadModel c = .ok model ∧ loadItemHash c = .ok itemHash ∧
    Room model itemHash p es

theorem HasRoom.congr (h : p.SameUtxos p₁) : HasRoom p₁ es ↔ HasRoom p es := by
  simp only [HasRoom, Room, PayStorage.shardTree, h.shardTrees]

theorem registerAll_ok_iff (hc : c.Lawful) :
    (∃ p', registerAll es p = (.ok ⟨⟩, p')) ↔ HasRoom p es := by
  obtain ⟨model, hm⟩ := loadModel_total hc
  obtain ⟨itemHash, hk⟩ := loadItemHash_total hc
  constructor
  · intro ⟨p', h⟩
    have ⟨happ, _⟩ := registerAll_appended hc hm hk h
    exact ⟨model, itemHash, hm, hk, happ.room⟩
  · intro ⟨model', itemHash', hm', hk', hr⟩
    exact registerAll_total hc hm' hk' hr

section Returns

theorem insertLoop_returns (model : c.Model) (itemHash : c.ItemHash) (s : Fin 256)
    (es : List (Entry c)) (t : WorkingTree c) (p : PayStorage) :
    (insertLoop model itemHash s es t p).1.Returns := by
  induction es generalizing t p with
  | nil => exact Exec.ok_returns t
  | cons e es ih =>
    simp only [insertLoop, Tx.read_bind_returns, Exec.okOr_returns, Exec.lift_returns, true_and]
    intro x _ u _
    rw [Tx.bind_run_returns]
    refine ⟨Exec.ok_returns _, fun _ p₁ _ => ?_⟩
    simp only [Tx.read_bind_returns, Exec.lift_returns, true_and]
    intro n _
    rw [Tx.bind_run_returns]
    exact ⟨Exec.ok_returns _, fun _ p₂ _ => ih _ p₂⟩

theorem registerShard_returns (model : c.Model) (itemHash : c.ItemHash) (s : Fin 256)
    (es : List (Entry c)) (p : PayStorage) :
    (registerShard model itemHash s es p).1.Returns := by
  simp only [registerShard, Tx.read_bind_returns, Exec.lift_returns, true_and]
  intro t _
  rw [Tx.bind_run_returns]
  refine ⟨insertLoop_returns model itemHash s es t p, fun t' p₁ _ => ?_⟩
  simp only [Tx.read_bind_returns, Exec.lift_returns, true_and]
  intro stored _
  cases t'.nextRoot with
  | none => exact Exec.ok_returns _
  | some root =>
    simp only
    rw [Tx.bind_run_returns]
    refine ⟨Exec.ok_returns _, fun _ p₂ _ => ?_⟩
    simp only [Tx.read_bind_returns, Exec.lift_returns, true_and]
    exact fun _ _ => Exec.ok_returns _

/-- Registration never stops without a result. -/
theorem registerAll_returns (es : List (Entry c)) (p : PayStorage) :
    (registerAll es p).1.Returns := by
  have hshards : ∀ model itemHash (gs : List (Fin 256 × List (Entry c))) p,
      (registerShards model itemHash gs p).1.Returns := by
    intro model itemHash gs
    induction gs with
    | nil => exact fun p => Exec.ok_returns _
    | cons g gs ih =>
      intro p
      rw [registerShards, Tx.bind_run_returns]
      exact ⟨registerShard_returns model itemHash g.1 g.2 p, fun _ p₁ _ => ih p₁⟩
  simp only [registerAll, Tx.read_bind_returns, Exec.lift_returns, true_and]
  exact fun model _ itemHash _ => hshards model itemHash _ p

end Returns

/-- Registration of the pairs one at a time. -/
def registerEach : List (Entry c) → Tx PayStorage (ReceiverLedgerError c) PUnit
  | [] => pure ⟨⟩
  | e :: es => do
    registerAll [e]
    registerEach es

section Sequential
variable (hc : c.Lawful) (hm : loadModel c = .ok model) (hk : loadItemHash c = .ok itemHash)
include hc hm hk

theorem registerEach_appended {u : PUnit} (h : registerEach es p = (.ok u, p')) :
    Appended model itemHash p p' es ∧ ∀ b, p.utxoAccumulatorOutputs.containsKey b = true ∨
      FinalRoot model itemHash p es b → p'.utxoAccumulatorOutputs.containsKey b = true := by
  induction es generalizing p with
  | nil =>
    obtain ⟨-, rfl⟩ := Tx.pure_ok.mp h
    exact ⟨Appended.refl _, fun b hb => hb.elim id fun ⟨_, _, _, _, hne, _⟩ => absurd rfl hne⟩
  | cons e es ih =>
    obtain ⟨u₁, p₁, h₁, h₂⟩ := Tx.bind_run_ok.mp h
    have ⟨happ₁, hout₁⟩ := registerAll_appended hc hm hk h₁
    have ⟨happ₂, hout₂⟩ := ih h₂
    refine ⟨happ₁.trans hc happ₂, fun b hb => hout₂ b ?_⟩
    rw [hout₁, or_assoc]
    refine hb.imp_right fun hf => ?_
    have hf' : FinalRoot model itemHash p ([e] ++ es) b := hf
    exact hf'.of_append hc happ₁

theorem registerEach_total (hr : Room model itemHash p es) :
    ∃ p', registerEach es p = (.ok ⟨⟩, p') := by
  induction es generalizing p with
  | nil => exact ⟨p, rfl⟩
  | cons e es ih =>
    have hr' : Room model itemHash p ([e] ++ es) := hr
    obtain ⟨p₁, h₁⟩ := registerAll_total hc hm hk hr'.left
    have ⟨happ, _⟩ := registerAll_appended hc hm hk h₁
    obtain ⟨p', h₂⟩ := ih (hr'.right hc happ)
    exact ⟨p', Tx.bind_run_ok.mpr ⟨⟨⟩, p₁, h₁, h₂⟩⟩

end Sequential

/-- What was appended determines the UTXO ledger but for the accumulator outputs. -/
theorem Appended.unique (h : Appended model itemHash p p₁ es)
    (h' : Appended model itemHash p p' es) :
    p₁.utxoSet = p'.utxoSet ∧ p₁.shards = p'.shards ∧ p₁.shardTrees = p'.shardTrees := by
  refine ⟨?_, ?_, ?_⟩
  · ext u : 2
    have hu : (p₁.utxoSet.get u).isSome = true ↔ (p'.utxoSet.get u).isSome = true :=
      (h.utxoSet u).trans (h'.utxoSet u).symm
    cases h₁ : p₁.utxoSet.get u <;> cases h₂ : p'.utxoSet.get u <;> simp_all
  · ext ⟨s, i⟩ : 2
    by_cases he : onShard itemHash s es = []
    · rw [((h.shard s).idle he).2, ((h'.shard s).idle he).2]
    · obtain ⟨t, t₁, bs, _, hd, -, hb, -, -, hg⟩ := (h.shard s).grown he
      obtain ⟨t', t₁', bs', _, hd', -, hb', -, -, hg'⟩ := (h'.shard s).grown he
      obtain rfl := Except.ok.inj (hd.symm.trans hd')
      obtain rfl := Except.ok.inj (hb.symm.trans hb')
      rw [hg, hg']
  · ext s : 2
    by_cases he : onShard itemHash s es = []
    · rw [((h.shard s).idle he).1, ((h'.shard s).idle he).1]
    · obtain ⟨t, t₁, _, stored, hd, hi, -, hst, hget, -⟩ := (h.shard s).grown he
      obtain ⟨t', t₁', _, stored', hd', hi', -, hst', hget', -⟩ := (h'.shard s).grown he
      obtain rfl := Except.ok.inj (hd.symm.trans hd')
      obtain rfl := Option.some.inj (hi.symm.trans hi')
      obtain rfl := Except.ok.inj (hst.symm.trans hst')
      rw [hget, hget']

end ProxyLedger

end ZkNft
