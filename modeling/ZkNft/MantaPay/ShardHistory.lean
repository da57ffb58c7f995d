import ZkNft.MantaPay.Sample

/-! The UTXO ledger over whole histories: each shard lists the UTXOs registered to it, in order. -/

namespace ZkNft
open StorageMap TransferLedger ProxyLedger

/-- The number of leaves that a stored tree counts. -/
def UtxoMerkleTreePath.leaves (tree : UtxoMerkleTreePath) : ℕ :=
  if tree.leafDigest.isSome then tree.currentPath.leafIndex.toNat + 1 else 0

namespace ProxyLedger
variable {c : Crypto}

/-- The shards hold every registered UTXO once, each under the next free key of its shard. -/
structure ShardInvariant (itemHash : c.ItemHash) (p : PayStorage) : Prop where
  readable : ∀ s, ∃ t : WorkingTree c, decodeTree (p.shardTree s) = .ok t
  keys : ∀ s i, (p.shards.get (s, i)).isSome = true ↔ i < (p.shardTree s).leaves
  placed : ∀ s i b, p.shards.get (s, i) = some b →
    ∃ u : Config.Utxo c.toFields, b.1.tryInto = .ok u ∧ shardIndex itemHash u = s
  stored : ∀ u, p.utxoSet.containsKey u = true ↔ ∃ s i n, p.shards.get (s, i) = some (u, n)
  once : ∀ s i s' i' b b', p.shards.get (s, i) = some b → p.shards.get (s', i') = some b' →
    b.1 = b'.1 → s = s' ∧ i = i'

variable {model : c.Model} {itemHash : c.ItemHash} {p p' : PayStorage} {es fs : List (Entry c)}
  {s : Fin 256}

theorem decodeTree_genesis (hc : c.Lawful) (s : Fin 256) :
    ∃ t : WorkingTree c, decodeTree (PayStorage.genesis.shardTree s) = .ok t ∧ t.size = 0 := by
  obtain ⟨z, hz⟩ := Option.isSome_iff_exists.mp hc.fp_zero
  have hzero : fpDecode (F := c.toFields) (Bytes.zero 32).toList = .ok z := decodeVec_eq_ok.mpr hz
  refine ⟨⟨none, ⟨z, 0, []⟩, none⟩, ?_, rfl⟩
  have htree : PayStorage.genesis.shardTree s = ⟨none, ⟨Bytes.zero 32, 0, []⟩⟩ := rfl
  simp only [decodeTree, htree, CurrentPath.tryInto, hzero]
  rfl

/-- A shard lists the stored forms of the entries appended to it. -/
theorem Appended.shard_lists (hc : c.Lawful) (h : Appended model itemHash .genesis p es)
    (s : Fin 256) : ∃ bs, (onShard itemHash s es).mapM encodeEntry = .ok bs ∧
      Lists (fun i => p.shards.get (s, i)) bs ∧ (p.shardTree s).leaves = bs.length ∧
      ∃ t : WorkingTree c, decodeTree (p.shardTree s) = .ok t := by
  obtain ⟨t₀, ht₀, hsize₀⟩ := decodeTree_genesis hc s
  by_cases he : onShard itemHash s es = []
  · have ⟨_, hget⟩ := (h.shard s).idle he
    have htree : p.shardTree s = PayStorage.genesis.shardTree s := h.shardTree_idle he
    rw [he, htree]
    refine ⟨[], rfl, ?_, rfl, t₀, ht₀⟩
    intro i
    exact hget i
  · obtain ⟨t, t', bs, stored, hd, hi, hb, hst, htree, hget⟩ := (h.shard s).grown he
    obtain rfl := Except.ok.inj (hd.symm.trans ht₀)
    have hlen : (onShard itemHash s es).length = bs.length :=
      (Exec.except_mapM_eq_ok.mp hb).length_eq
    have hshard : p.shardTree s = stored := by
      unfold PayStorage.shardTree
      rw [htree]
      rfl
    have ⟨hdec, hleaf, hindex⟩ := decodeTree_stored hc he hi hst
    refine ⟨bs, hb, ?_, ?_, _, hshard ▸ hdec⟩
    · have hlists : Lists _ ([] ++ bs) := Lists.overlay_eq Lists.nil
      intro i
      show p.shards.get (s, i) = bs[i]?
      rw [hget i, hsize₀]
      exact hlists i
    · rw [hshard, UtxoMerkleTreePath.leaves, if_pos hleaf, hindex, hsize₀, hlen, Nat.zero_add]

/-- What was appended to an empty ledger, each UTXO once, satisfies the invariant. -/
theorem Appended.invariant (hc : c.Lawful) (h : Appended model itemHash .genesis p es)
    (hdistinct : es.Pairwise fun e e' => e.1 ≠ e'.1) : ShardInvariant itemHash p where
  readable s := by
    obtain ⟨_, -, -, -, ht⟩ := h.shard_lists hc s
    exact ht
  keys s i := by
    obtain ⟨bs, -, hlists, hleaves, -⟩ := h.shard_lists hc s
    rw [hleaves]
    exact hlists.isSome_iff i
  placed s i b hb := by
    obtain ⟨bs, hbs, hlists, -, -⟩ := h.shard_lists hc s
    have hmem : b ∈ bs := (hlists.mem_iff b).mpr ⟨i, hb⟩
    obtain ⟨e, he, heb⟩ := Exec.except_mapM_mem hbs hmem
    have hu := (encodeEntry_eq_ok.mp heb).1
    exact ⟨e.1, Utxo.tryInto_tryFrom hc hu, (mem_onShard.mp he).2⟩
  stored u := by
    rw [h.utxoSet]
    constructor
    · rintro (hg | ⟨e, he, hu⟩)
      · cases hg
      · obtain ⟨bs, hbs, hlists, -, -⟩ := h.shard_lists hc (shardIndex itemHash e.1)
        have hmem : u ∈ bs.map Prod.fst :=
          (mem_of_mapM_encodeEntry hbs u).mpr ⟨e, mem_onShard.mpr ⟨he, rfl⟩, hu⟩
        obtain ⟨b, hb, rfl⟩ := List.mem_map.mp hmem
        obtain ⟨i, hi⟩ := (hlists.mem_iff b).mp hb
        exact ⟨_, i, b.2, hi⟩
    · intro ⟨s, i, n, hi⟩
      obtain ⟨bs, hbs, hlists, -, -⟩ := h.shard_lists hc s
      have hmem : (u, n) ∈ bs := (hlists.mem_iff (u, n)).mpr ⟨i, hi⟩
      obtain ⟨e, he, heb⟩ := Exec.except_mapM_mem hbs hmem
      exact .inr ⟨e, (mem_onShard.mp he).1, (encodeEntry_eq_ok.mp heb).1⟩
  once s i s' i' b b' hb hb' hu := by
    obtain ⟨bs, hbs, hlists, -, -⟩ := h.shard_lists hc s
    obtain ⟨bs', hbs', hlists', -, -⟩ := h.shard_lists hc s'
    obtain ⟨e, he, heb⟩ := Exec.except_mapM_mem hbs ((hlists.mem_iff b).mpr ⟨i, hb⟩)
    obtain ⟨e', he', heb'⟩ := Exec.except_mapM_mem hbs' ((hlists'.mem_iff b').mpr ⟨i', hb'⟩)
    have hsame : e.1 = e'.1 := by
      have h₁ := (encodeEntry_eq_ok.mp heb).1
      have h₂ := (encodeEntry_eq_ok.mp heb').1
      rw [hu] at h₁
      exact Utxo.tryFrom_inj hc h₁ h₂
    have hs : s = s' := by
      rw [← (mem_onShard.mp he).2, ← (mem_onShard.mp he').2, hsame]
    subst hs
    obtain rfl := Except.ok.inj (hbs.symm.trans hbs')
    have hnodup : (bs.map Prod.fst).Nodup := by
      rw [List.Nodup, List.pairwise_map]
      refine Exec.forall₂_pairwise ?_ (Exec.except_mapM_eq_ok.mp hbs)
        (hdistinct.filter fun e => shardIndex itemHash e.1 = s)
      intro e e' b b' he he' hne heq
      have h₁ := (encodeEntry_eq_ok.mp he).1
      have h₂ := (encodeEntry_eq_ok.mp he').1
      rw [heq] at h₁
      exact hne (Utxo.tryFrom_inj hc h₁ h₂)
    exact ⟨rfl, hlists.index_unique hnodup hb hb' hu⟩

/-- A write to the ledger. -/
inductive Write (c : Crypto) where
  | spendAll (entries : List (c.Fp × Config.Nullifier c.toFields))
  | registerAll (pairs : List (Entry c))

/-- A write that fails is rolled back with its extrinsic. -/
def Write.next (p : PayStorage) : Write c → PayStorage
  | .spendAll entries => (Tx.transactional (ProxyLedger.spendAll entries) p).2
  | .registerAll pairs => (Tx.transactional (ProxyLedger.registerAll pairs) p).2

/-- The UTXOs are new, in the ledger and inside the batch. -/
structure NewUtxos (p : PayStorage) (pairs : List (Entry c)) : Prop where
  distinct : pairs.Pairwise fun e e' => ¬ c.utxoRelated e.1 e'.1
  unregistered : ∀ e ∈ pairs, isNotRegistered p e.1 = .ok e.1

/-- What a post has checked before it registers its UTXOs. -/
def Write.Allowed (p : PayStorage) : Write c → Prop
  | .spendAll _ => True
  | .registerAll pairs => NewUtxos p pairs

/-- The batch that a write registers. -/
def Write.batch (p : PayStorage) : Write c → Option (List (Entry c))
  | .spendAll _ => none
  | .registerAll pairs =>
    match (ProxyLedger.registerAll pairs p).1 with
    | .ok _ => some pairs
    | _ => none

/-- The batches registered by a list of writes, in order. -/
def batches (tr : List (PayStorage × Write c)) : List (List (Entry c)) :=
  tr.filterMap fun x => x.2.batch x.1

/-- `b` is the root that a shard had after some batch that touched it. -/
def RootAfterBatch (model : c.Model) (itemHash : c.ItemHash) (bs : List (List (Entry c)))
    (b : Bytes 32) : Prop :=
  ∃ before batch s, before ++ [batch] <+: bs ∧ onShard itemHash s batch ≠ [] ∧
    ShardRoot model itemHash .genesis s (before.flatten ++ batch) b

/-- What batches leave in the UTXO ledger. -/
structure ShardHistory (model : c.Model) (itemHash : c.ItemHash) (bs : List (List (Entry c)))
    (p : PayStorage) : Prop where
  appended : Appended model itemHash .genesis p bs.flatten
  distinct : bs.flatten.Pairwise fun e e' => e.1 ≠ e'.1
  outputs : ∀ b, p.utxoAccumulatorOutputs.containsKey b = true ↔
    RootAfterBatch model itemHash bs b
  current : ∀ s b, ShardRoot model itemHash .genesis s bs.flatten b →
    p.utxoAccumulatorOutputs.containsKey b = true

variable {bs bs' : List (List (Entry c))}

theorem Appended.of_sameUtxos (h : p.SameUtxos p') :
    Appended model itemHash p p' ([] : List (Entry c)) := by
  refine ⟨fun s => ⟨fun _ => ⟨?_, fun i => ?_⟩, fun hne => absurd rfl hne⟩, fun u => ?_⟩
  · rw [h.shardTrees]
  · rw [h.shards]
  · rw [h.utxoSet]
    simp

/-- New UTXOs are different and not in the ledger. -/
theorem NewUtxos.apart (hc : c.Lawful) (h : NewUtxos p es) :
    (es.Pairwise fun e e' => e.1 ≠ e'.1) ∧ ∀ e ∈ es, ∀ u,
      Utxo.tryFrom e.1 = .ok u → p.utxoSet.containsKey u = false := by
  constructor
  · refine h.distinct.imp fun {e e'} hne heq => hne ?_
    rw [heq]
    exact hc.utxo_related e'.1
  · intro e he u hu
    obtain ⟨-, u', hu', hfree⟩ := isNotRegistered_eq_ok.mp (h.unregistered e he)
    obtain rfl := Except.ok.inj (hu'.symm.trans hu)
    exact hfree

theorem rootAfterBatch_snoc {batch : List (Entry c)} {b : Bytes 32} :
    RootAfterBatch model itemHash (bs ++ [batch]) b ↔
      RootAfterBatch model itemHash bs b ∨ ∃ s, onShard itemHash s batch ≠ [] ∧
        ShardRoot model itemHash .genesis s (bs.flatten ++ batch) b := by
  constructor
  · intro ⟨before, batch', s, hpre, hs, hroot⟩
    rcases List.prefix_concat_iff.mp hpre with heq | hpre
    · obtain ⟨rfl, hbatch⟩ := List.append_inj' heq rfl
      obtain rfl := List.singleton_inj.mp hbatch
      exact .inr ⟨s, hs, hroot⟩
    · exact .inl ⟨before, batch', s, hpre, hs, hroot⟩
  · rintro (⟨before, batch', s, hpre, hs, hroot⟩ | ⟨s, hs, hroot⟩)
    · exact ⟨before, batch', s, hpre.trans (List.prefix_append bs [batch]), hs, hroot⟩
    · exact ⟨bs, batch, s, List.prefix_refl _, hs, hroot⟩

theorem ShardHistory.genesis :
    ShardHistory model itemHash ([] : List (List (Entry c))) .genesis := by
  refine ⟨Appended.refl _, List.Pairwise.nil, fun b => iff_of_false ?_ ?_, ?_⟩
  · simp [PayStorage.genesis, StorageMap.containsKey]
  · rintro ⟨before, batch, s, hpre, _⟩
    simp at hpre
  · rintro s b ⟨_, _, _, hne, _⟩
    exact absurd rfl hne

theorem ShardHistory.idle (hc : c.Lawful) (h : ShardHistory model itemHash bs p)
    (hsame : p.SameUtxos p') : ShardHistory model itemHash bs p' := by
  have happ := h.appended.trans hc (Appended.of_sameUtxos hsame)
  rw [List.append_nil] at happ
  refine ⟨happ, h.distinct, fun b => ?_, fun s b hroot => ?_⟩
  · rw [hsame.utxoAccumulatorOutputs]
    exact h.outputs b
  · rw [hsame.utxoAccumulatorOutputs]
    exact h.current s b hroot

/-- A registered batch appends its UTXOs and adds the roots of the shards it touched. -/
theorem ShardHistory.batch (hc : c.Lawful) (hm : loadModel c = .ok model)
    (hk : loadItemHash c = .ok itemHash) (h : ShardHistory model itemHash bs p)
    (hnew : NewUtxos p es) {u : PUnit} (hreg : registerAll es p = (.ok u, p')) :
    ShardHistory model itemHash (bs ++ [es]) p' := by
  have hflat : (bs ++ [es]).flatten = bs.flatten ++ es := List.flatten_concat
  have ⟨happ, hout⟩ := registerAll_appended hc hm hk hreg
  have ⟨hdistinct, hfree⟩ := hnew.apart hc
  constructor
  · rw [hflat]
    exact h.appended.trans hc happ
  · rw [hflat, List.pairwise_append]
    refine ⟨h.distinct, hdistinct, fun e he e' he' heq => ?_⟩
    obtain ⟨u, hu⟩ := Utxo.tryFrom_total hc e.1
    have hin : p.utxoSet.containsKey u = true := (h.appended.utxoSet u).mpr (.inr ⟨e, he, hu⟩)
    rw [hfree e' he' u (heq ▸ hu)] at hin
    cases hin
  · intro b
    rw [hout, h.outputs, rootAfterBatch_snoc]
    refine or_congr_right ⟨?_, ?_⟩
    · intro ⟨s, hroot⟩
      have ⟨_, _, _, hne, _⟩ := hroot
      exact ⟨s, hne, hroot.append_right hc h.appended⟩
    · intro ⟨s, hne, hroot⟩
      exact ⟨s, hroot.of_append hc h.appended hne⟩
  · intro s b hroot
    rw [hflat] at hroot
    rw [hout]
    by_cases hne : onShard itemHash s es = []
    · exact .inl (h.current s b (hroot.of_append_idle hne))
    · exact .inr ⟨s, hroot.of_append hc h.appended hne⟩

theorem Write.next_spendAll {entries : List (c.Fp × Config.Nullifier c.toFields)} {u : PUnit}
    (h : ProxyLedger.spendAll entries p = (.ok u, p')) :
    (Write.spendAll entries).next p = p' :=
  (Prod.ext_iff.mp (Tx.transactional_run_ok.mpr h)).2

theorem Write.next_registerAll {u : PUnit} (h : ProxyLedger.registerAll es p = (.ok u, p')) :
    (Write.registerAll es).next p = p' :=
  (Prod.ext_iff.mp (Tx.transactional_run_ok.mpr h)).2

theorem Write.batch_registerAll {u : PUnit} (h : ProxyLedger.registerAll es p = (.ok u, p')) :
    (Write.registerAll es).batch p = some es := by
  simp only [Write.batch, h]

/-- Each write registers no UTXOs or one batch. -/
theorem Write.next_cases (m : Write c) :
    (m.batch p = none ∧ p.SameUtxos (m.next p)) ∨ ∃ pairs u, m = .registerAll pairs ∧
      m.batch p = some pairs ∧ ProxyLedger.registerAll pairs p = (.ok u, m.next p) := by
  cases m with
  | spendAll entries =>
    left
    refine ⟨rfl, ?_⟩
    cases h : ProxyLedger.spendAll entries p with
    | mk r p₁ =>
      cases r with
      | ok u =>
        rw [Write.next_spendAll h]
        exact spendAll_sameUtxos h
      | err e =>
        rw [Write.next, Tx.transactional, h]
        exact ⟨rfl, rfl, rfl, rfl⟩
      | trap t =>
        rw [Write.next, Tx.transactional, h]
        exact ⟨rfl, rfl, rfl, rfl⟩
  | registerAll pairs =>
    cases h : ProxyLedger.registerAll pairs p with
    | mk r p₁ =>
      cases r with
      | ok u =>
        right
        refine ⟨pairs, u, rfl, Write.batch_registerAll h, ?_⟩
        rw [Write.next_registerAll h]
        exact h
      | err e =>
        left
        refine ⟨by simp only [Write.batch, h], ?_⟩
        rw [Write.next, Tx.transactional, h]
        exact ⟨rfl, rfl, rfl, rfl⟩
      | trap t =>
        left
        refine ⟨by simp only [Write.batch, h], ?_⟩
        rw [Write.next, Tx.transactional, h]
        exact ⟨rfl, rfl, rfl, rfl⟩

theorem batches_append (tr tr' : List (PayStorage × Write c)) :
    batches (tr ++ tr') = batches tr ++ batches tr' := List.filterMap_append

theorem batches_singleton (x : PayStorage × Write c) :
    batches [x] = (x.2.batch x.1).toList := by
  cases h : x.2.batch x.1 <;> simp [batches, h]

section Runs
variable {tr : List (PayStorage × Write c)}

theorem run_shardHistory (hc : c.Lawful) (hm : loadModel c = .ok model)
    (hk : loadItemHash c = .ok itemHash) (h : Run Write.next Write.Allowed .genesis tr p) :
    ShardHistory model itemHash (batches tr) p := by
  induction h with
  | nil => exact .genesis
  | @snoc tr p m _ hallowed ih =>
    rw [batches_append, batches_singleton]
    rcases m.next_cases with ⟨hnone, hsame⟩ | ⟨pairs, u, rfl, hsome, hreg⟩
    · rw [hnone, Option.toList_none, List.append_nil]
      exact ih.idle hc hsame
    · rw [hsome, Option.toList_some]
      exact ih.batch hc hm hk hallowed hreg

/-- The tree that shard `s` stores is the one after all its entries, with root `b`. -/
def CurrentRoot (model : c.Model) (itemHash : c.ItemHash) (p : PayStorage) (s : Fin 256)
    (es : List (Entry c)) (b : Bytes 32) : Prop :=
  ∃ t t' root, decodeTree (PayStorage.genesis.shardTree s) = .ok t ∧
    t.insertAll model itemHash (onShard itemHash s es) = some t' ∧
    decodeTree (p.shardTree s) = .ok { t' with nextRoot := none } ∧
    t'.nextRoot = some root ∧ fpEncode (F := c.toFields) root = .ok b

theorem ShardHistory.currentRoot (hc : c.Lawful) (h : ShardHistory model itemHash bs p)
    {i : Fin 256} (hi : (p.shardTree i).leaves ≠ 0) :
    ∃ b, CurrentRoot model itemHash p i bs.flatten b ∧
      p.utxoAccumulatorOutputs.containsKey b = true := by
  have hne : onShard itemHash i bs.flatten ≠ [] := by
    intro he
    obtain ⟨cs, hcs, -, hleaves, -⟩ := h.appended.shard_lists hc i
    rw [he] at hcs
    obtain rfl := Except.ok.inj hcs
    exact hi hleaves
  obtain ⟨t, ht, -⟩ := decodeTree_genesis hc i
  obtain ⟨t', hins, hdec⟩ := h.appended.shardTree_grown hc hne ht
  have ⟨_, hlast⟩ := WorkingTree.insertAll_spec hc hins
  obtain ⟨root, hroot⟩ := Option.isSome_iff_exists.mp (hlast hne).2.2
  obtain ⟨b, hb⟩ := fpEncode_total hc root
  exact ⟨b, ⟨t, t', root, ht, hins, hdec, hroot, hb⟩,
    h.current i b ⟨t, t', root, hne, ht, hins, hroot, hb⟩⟩

/-- Stored entries keep their keys when further batches are registered. -/
theorem ShardHistory.shards_kept (hc : c.Lawful) (h : ShardHistory model itemHash bs p)
    (h' : ShardHistory model itemHash bs' p') (hpre : bs <+: bs') (i : Fin 256) (j : ℕ)
    (b : Utxo × FullIncomingNote) (hb : p.shards.get (i, j) = some b) :
    p'.shards.get (i, j) = some b := by
  obtain ⟨later, rfl⟩ := hpre
  obtain ⟨cs, hcs, hlists, -, -⟩ := h.appended.shard_lists hc i
  obtain ⟨cs', hcs', hlists', -, -⟩ := h'.appended.shard_lists hc i
  obtain ⟨ds, hds⟩ := mapM_encodeEntry_total hc (onShard itemHash i later.flatten)
  have hprefix : cs <+: cs' := by
    rw [List.flatten_append, onShard_append, Exec.except_mapM_append hcs hds] at hcs'
    exact ⟨ds, Except.ok.inj hcs'⟩
  exact hlists.get_of_prefix hlists' hprefix hb

/-- After any writes the shards hold each registered UTXO once and in order, their entries stay for
ever, and the accumulator outputs are the roots after the batches. -/
theorem shard_invariant (hc : c.Lawful) (hm : loadModel c = .ok model)
    (hk : loadItemHash c = .ok itemHash) (h : Run Write.next Write.Allowed .genesis tr p) :
    ShardInvariant itemHash p ∧
      (∀ (tr' : List (PayStorage × Write c)) p', Run Write.next Write.Allowed p tr' p' →
        ∀ i j b, p.shards.get (i, j) = some b → p'.shards.get (i, j) = some b) ∧
      (∀ b, p.utxoAccumulatorOutputs.containsKey b = true ↔
        RootAfterBatch model itemHash (batches tr) b) ∧
      ∀ i, (p.shardTree i).leaves ≠ 0 → ∃ b,
        CurrentRoot model itemHash p i (batches tr).flatten b ∧
          p.utxoAccumulatorOutputs.containsKey b = true := by
  have hhist := run_shardHistory hc hm hk h
  refine ⟨hhist.appended.invariant hc hhist.distinct, ?_, hhist.outputs, ?_⟩
  · intro tr' p' h' i j b hb
    have hhist' := run_shardHistory hc hm hk (h.append h')
    rw [batches_append] at hhist'
    exact hhist.shards_kept hc hhist' (List.prefix_append _ _) i j b hb
  · intro i hi
    exact hhist.currentRoot hc hi

end Runs

section Witness
open Sample

/-- UTXOs of the shards `40` and `41` in turn, a post without UTXOs, and a second batch. -/
def batchWrites : List (Write crypto) :=
  [.registerAll pairs, .spendAll [], .registerAll ([297, 42, 552].map pair)]

def batchHistory : List (PayStorage × Write crypto) := trace Write.next .genesis batchWrites

def afterBatches : PayStorage := batchWrites.foldl Write.next .genesis

theorem newUtxos_of_toBool {p : PayStorage} {pairs : List (Entry crypto)}
    (hdistinct : pairs.Pairwise fun e e' => ¬ crypto.utxoRelated e.1 e'.1)
    (hfree : ∀ e ∈ pairs, (isNotRegistered p e.1).toBool = true) : NewUtxos p pairs := by
  refine ⟨hdistinct, fun e he => ?_⟩
  have htrue := hfree e he
  cases hu : isNotRegistered p e.1 with
  | error err =>
    rw [hu] at htrue
    cases htrue
  | ok u => rw [(isNotRegistered_eq_ok.mp hu).1]

theorem run_batchWrites :
    Run Write.next Write.Allowed .genesis batchHistory afterBatches := by
  apply Run.play
  intro x hx
  simp only [batchWrites, trace, List.mem_cons, List.not_mem_nil, or_false] at hx
  rcases hx with rfl | rfl | rfl
  · exact newUtxos_of_toBool (by decide +kernel) (by decide +kernel)
  · trivial
  · exact newUtxos_of_toBool (by decide +kernel) (by decide +kernel)

theorem shard_invariant_sample : (batches batchHistory).map List.length = [3, 3] ∧
    ShardInvariant (c := crypto) () afterBatches ∧
      (∀ (tr' : List (PayStorage × Write crypto)) p',
        Run Write.next Write.Allowed afterBatches tr' p' → ∀ i j b,
          afterBatches.shards.get (i, j) = some b → p'.shards.get (i, j) = some b) ∧
      (∀ b, afterBatches.utxoAccumulatorOutputs.containsKey b = true ↔
        RootAfterBatch () () (batches batchHistory) b) ∧
      ∀ i, (afterBatches.shardTree i).leaves ≠ 0 → ∃ b,
        CurrentRoot () () afterBatches i (batches batchHistory).flatten b ∧
          afterBatches.utxoAccumulatorOutputs.containsKey b = true :=
  ⟨by decide +kernel, shard_invariant crypto_lawful rfl rfl run_batchWrites⟩

end Witness

end ProxyLedger

section Step
variable {R : Runtime} {model : R.crypto.Model} {itemHash : R.crypto.ItemHash}
  {p p' : PayStorage} {body : Config.TransferPostBody R.crypto.toFields}

/-- The ledger writes of a post, seen from the state before it. -/
theorem writes_appended (hc : R.crypto.Lawful) (hm : loadModel R.crypto = .ok model)
    (hk : loadItemHash R.crypto = .ok itemHash) (hw : Writes body p p') :
    Appended model itemHash p p' (entries body) ∧ ∀ b,
      p'.utxoAccumulatorOutputs.containsKey b = true ↔
        p.utxoAccumulatorOutputs.containsKey b = true ∨
          FinalRoot model itemHash p (entries body) b := by
  obtain ⟨p₁, hspend, hregister⟩ := hw
  have hsame := spendAll_sameUtxos hspend
  have ⟨happ, hout⟩ := registerAll_appended hc hm hk hregister
  have htree : ∀ s, p₁.shardTree s = p.shardTree s := fun s => by
    unfold PayStorage.shardTree
    rw [hsame.shardTrees]
  constructor
  · exact (Appended.of_sameUtxos hsame).trans hc happ
  · intro b
    rw [hout, hsame.utxoAccumulatorOutputs]
    simp only [FinalRoot, ShardRoot, htree]

/-- A fresh post registers new UTXOs, also after its nullifiers are spent. -/
theorem TransferLedger.Fresh.newUtxos (h : Fresh p body) (hsame : p.SameUtxos p') :
    NewUtxos p' (entries body) := by
  constructor
  · rw [entries, List.pairwise_map]
    exact h.distinct
  · intro e he
    obtain ⟨x, hx, rfl⟩ := List.mem_map.mp he
    obtain ⟨heq, u, hu, hfree⟩ := isNotRegistered_eq_ok.mp (h.unregistered x hx)
    refine isNotRegistered_eq_ok.mpr ⟨heq, u, hu, ?_⟩
    rw [hsame.utxoSet]
    exact hfree

end Step

section Pallet
variable {R : Runtime}

/-- The UTXOs with their notes that each accepted post of a history registers. -/
def postedBatches (tr : History R) : List (List (Entry R.crypto)) :=
  (posts tr).map fun post => entries post.body

/-- The UTXOs with their notes that the accepted posts of a history register, in order. -/
def registered (tr : History R) : List (Entry R.crypto) := (postedBatches tr).flatten

theorem postedBatches_append (tr tr' : History R) :
    postedBatches (tr ++ tr') = postedBatches tr ++ postedBatches tr' := by
  rw [postedBatches, posts_append, List.map_append]
  rfl

theorem postedBatches_singleton (x : State R × Move R) :
    postedBatches [x] = ((x.2.accepted x.1).map fun post => entries post.body).toList := by
  cases h : x.2.accepted x.1 <;> simp [postedBatches, posts, h]

theorem registered_snoc (tr : History R) (x : State R × Move R) :
    registered (tr ++ [x]) = registered tr ++
      ((x.2.accepted x.1).map fun post => entries post.body).getD [] := by
  rw [registered, postedBatches_append, postedBatches_singleton, List.flatten_append]
  cases x.2.accepted x.1 <;> simp [registered]

variable {model : R.crypto.Model} {itemHash : R.crypto.ItemHash} {s₀ s : State R}
  {tr : History R}

/-- A history of the pallet writes to the ledger what its accepted posts do, each its nullifiers
and then its UTXOs. -/
theorem run_writes (h : Run Move.next Move.Allowed s₀ tr s) :
    ∃ ws, Run Write.next Write.Allowed s₀.pay ws s.pay ∧ batches ws = postedBatches tr := by
  induction h with
  | nil => exact ⟨[], .nil, rfl⟩
  | snoc _ hallowed ih =>
    obtain ⟨ws, hws, heq⟩ := ih
    rw [postedBatches_append, postedBatches_singleton, ← heq]
    rcases Move.next_pay hallowed with ⟨hnone, hpay⟩ |
      ⟨post, hsome, hfresh, p₁, hspend, hregister⟩
    · refine ⟨ws, hpay ▸ hws, ?_⟩
      rw [hnone]
      exact (List.append_nil _).symm
    · have hspent : Run Write.next Write.Allowed s₀.pay _ p₁ :=
        Write.next_spendAll hspend ▸ hws.snoc (m := Write.spendAll (spends post.body)) trivial
      have hnew : (Write.registerAll (entries post.body)).Allowed p₁ :=
        hfresh.newUtxos (spendAll_sameUtxos hspend)
      refine ⟨_, Write.next_registerAll hregister ▸ hspent.snoc hnew, ?_⟩
      rw [batches_append, batches_append, batches_singleton, batches_singleton, hsome,
        Write.batch_registerAll hregister, List.append_assoc]
      rfl

theorem run_shardHistory (hR : R.Lawful) (hm : loadModel R.crypto = .ok model)
    (hk : loadItemHash R.crypto = .ok itemHash) (h₀ : s₀.pay = .genesis)
    (h : Run Move.next Move.Allowed s₀ tr s) :
    ShardHistory model itemHash (postedBatches tr) s.pay := by
  obtain ⟨ws, hws, heq⟩ := run_writes h
  rw [h₀] at hws
  rw [← heq]
  exact ProxyLedger.run_shardHistory hR.crypto hm hk hws

end Pallet

end ZkNft
