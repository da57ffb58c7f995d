import ZkNft.MantaPay.ShardTree

/-! Registration of UTXOs as appending to the shards: what a batch writes depends only on the
entries of each shard, in order. -/

namespace ZkNft
open StorageMap

namespace ProxyLedger
variable {c : Crypto} (model : c.Model) (itemHash : c.ItemHash)

/-- The entries of one shard, in order. -/
def onShard (s : Fin 256) (entries : List (Entry c)) : List (Entry c) :=
  entries.filter fun e => shardIndex itemHash e.1 = s

/-- `p'` is `p` with `entries` appended to shard `s`. -/
structure ShardAppended (p p' : PayStorage) (s : Fin 256) (entries : List (Entry c)) : Prop where
  idle : entries = [] → p'.shardTrees.get s = p.shardTrees.get s ∧
    ∀ i, p'.shards.get (s, i) = p.shards.get (s, i)
  grown : entries ≠ [] → ∃ t t' bs stored, decodeTree (p.shardTree s) = .ok t ∧
    t.insertAll model itemHash entries = some t' ∧ entries.mapM encodeEntry = .ok bs ∧
    encodeTree t' = .ok stored ∧ p'.shardTrees.get s = some stored ∧
    ∀ i, p'.shards.get (s, i) = overlay (fun j => p.shards.get (s, j)) t.size bs i

/-- `p'` is `p` with `entries` appended, each to the shard of its item hash. -/
structure Appended (p p' : PayStorage) (entries : List (Entry c)) : Prop where
  shard : ∀ s, ShardAppended model itemHash p p' s (onShard itemHash s entries)
  utxoSet : ∀ u, p'.utxoSet.containsKey u = true ↔
    p.utxoSet.containsKey u = true ∨ ∃ e ∈ entries, Utxo.tryFrom e.1 = .ok u

/-- `b` is the stored root that shard `s` has after `entries`, some of which go to it. -/
def ShardRoot (p : PayStorage) (s : Fin 256) (entries : List (Entry c)) (b : Bytes 32) : Prop :=
  ∃ t t' root, onShard itemHash s entries ≠ [] ∧ decodeTree (p.shardTree s) = .ok t ∧
    t.insertAll model itemHash (onShard itemHash s entries) = some t' ∧
    t'.nextRoot = some root ∧ fpEncode (F := c.toFields) root = .ok b

/-- `b` is the stored root that a shard touched by `entries` has after them. -/
def FinalRoot (p : PayStorage) (entries : List (Entry c)) (b : Bytes 32) : Prop :=
  ∃ s, ShardRoot model itemHash p s entries b

/-- Every touched shard takes its entries: its tree is readable and the insertions succeed. -/
def Room (p : PayStorage) (entries : List (Entry c)) : Prop :=
  ∀ s, onShard itemHash s entries ≠ [] → ∃ t t', decodeTree (p.shardTree s) = .ok t ∧
    t.insertAll model itemHash (onShard itemHash s entries) = some t'

variable {model itemHash} {p p₁ p' : PayStorage} {es fs : List (Entry c)} {s : Fin 256}

theorem onShard_append : onShard itemHash s (es ++ fs) =
    onShard itemHash s es ++ onShard itemHash s fs := List.filter_append _ _

theorem onShard_self (h : ∀ e ∈ es, shardIndex itemHash e.1 = s) : onShard itemHash s es = es :=
  List.filter_eq_self.mpr fun e he => decide_eq_true (h e he)

theorem onShard_other {s' : Fin 256} (h : ∀ e ∈ es, shardIndex itemHash e.1 = s) (hs : s ≠ s') :
    onShard itemHash s' es = [] :=
  List.filter_eq_nil_iff.mpr fun e he => by simp [h e he, hs]

theorem mem_onShard {e : Entry c} :
    e ∈ onShard itemHash s es ↔ e ∈ es ∧ shardIndex itemHash e.1 = s := by simp [onShard]

theorem mem_of_mapM_encodeEntry {bs : List (Utxo × FullIncomingNote)}
    (h : es.mapM encodeEntry = .ok bs) (u : Utxo) :
    u ∈ bs.map Prod.fst ↔ ∃ e ∈ es, Utxo.tryFrom e.1 = .ok u := by
  rw [Exec.except_mapM_eq_ok] at h
  induction h with
  | nil => simp
  | @cons e b es bs he _ ih =>
    have hu := (encodeEntry_eq_ok.mp he).1
    rw [List.map_cons, List.mem_cons, ih, List.exists_mem_cons_iff, hu, Except.ok.injEq,
      eq_comm]

theorem Appended.refl (p : PayStorage) : Appended model itemHash p p ([] : List (Entry c)) where
  shard s := ⟨fun _ => ⟨rfl, fun _ => rfl⟩, fun h => absurd rfl h⟩
  utxoSet u := by simp

section Lawful
variable (hc : c.Lawful)
include hc

/-- The tree stored after some insertions is read back as their result. -/
theorem decodeTree_stored {t t' : WorkingTree c} {stored : UtxoMerkleTreePath} (hne : es ≠ [])
    (hi : t.insertAll model itemHash es = some t') (he : encodeTree t' = .ok stored) :
    decodeTree stored = .ok { t' with nextRoot := none } ∧
      stored.leafDigest.isSome ∧ stored.currentPath.leafIndex.toNat + 1 = t.size + es.length := by
  have ⟨hsize, hlast⟩ := WorkingTree.insertAll_spec hc hi
  have ⟨hd, hcap, _⟩ := hlast hne
  obtain ⟨stored', he', hdec, hleaf, hidx⟩ := WorkingTree.encodeTree_total hc hcap
  obtain rfl := Except.ok.inj (he.symm.trans he')
  refine ⟨hdec, hleaf.trans hd, ?_⟩
  rw [hidx, ← hsize, WorkingTree.size, if_pos hd]

/-- Appending twice to a shard appends the concatenation. -/
theorem ShardAppended.trans (h₁ : ShardAppended model itemHash p p₁ s es)
    (h₂ : ShardAppended model itemHash p₁ p' s fs) :
    ShardAppended model itemHash p p' s (es ++ fs) := by
  by_cases hes : es = []
  · subst hes
    have ⟨htree, hget⟩ := h₁.idle rfl
    have hsh : p₁.shardTree s = p.shardTree s := by unfold PayStorage.shardTree; rw [htree]
    have hfun : (fun j => p₁.shards.get (s, j)) = fun j => p.shards.get (s, j) := funext hget
    refine ⟨fun hf => ?_, fun hf => ?_⟩
    · have ⟨ht, hg⟩ := h₂.idle hf
      exact ⟨ht.trans htree, fun i => (hg i).trans (hget i)⟩
    · obtain ⟨t, t', bs, stored, hd, hi, hb, he, hst, hg⟩ := h₂.grown hf
      exact ⟨t, t', bs, stored, hsh ▸ hd, hi, hb, he, hst, fun i => by rw [hg i, hfun]⟩
  · obtain ⟨t, t₁, bs, stored, hd, hi, hb, he, hst, hg⟩ := h₁.grown hes
    refine ⟨fun hf => absurd (List.append_eq_nil_iff.mp hf).1 hes, fun _ => ?_⟩
    by_cases hfs : fs = []
    · subst hfs
      have ⟨htree, hget⟩ := h₂.idle rfl
      rw [List.append_nil]
      exact ⟨t, t₁, bs, stored, hd, hi, hb, he, htree.trans hst, fun i => (hget i).trans (hg i)⟩
    · obtain ⟨t₂, t', cs, stored', hd₂, hi₂, hc₂, he₂, hst₂, hg₂⟩ := h₂.grown hfs
      have hsh : p₁.shardTree s = stored := by unfold PayStorage.shardTree; rw [hst]; rfl
      have ⟨hdec, _⟩ := decodeTree_stored hc hes hi he
      obtain rfl := Except.ok.inj (hdec.symm.trans (hsh ▸ hd₂))
      rw [WorkingTree.insertAll_nextRoot _ hfs] at hi₂
      have ⟨hsize, _⟩ := WorkingTree.insertAll_spec hc hi
      have hlen : es.length = bs.length := (Exec.except_mapM_eq_ok.mp hb).length_eq
      refine ⟨t, t', bs ++ cs, stored', hd, ?_, Exec.except_mapM_append hb hc₂, he₂, hst₂, ?_⟩
      · rw [WorkingTree.insertAll_append, hi]
        exact hi₂
      · intro i
        have hfun : (fun j => p₁.shards.get (s, j)) =
            overlay (fun j => p.shards.get (s, j)) t.size bs := funext hg
        have hsz : WorkingTree.size { t₁ with nextRoot := none } = t.size + bs.length := by
          rw [← hlen, ← hsize]
          rfl
        rw [hg₂ i, hfun, hsz, overlay_append]

theorem Appended.trans (h₁ : Appended model itemHash p p₁ es)
    (h₂ : Appended model itemHash p₁ p' fs) : Appended model itemHash p p' (es ++ fs) where
  shard s := by
    rw [onShard_append]
    exact (h₁.shard s).trans hc (h₂.shard s)
  utxoSet u := by
    rw [h₂.utxoSet, h₁.utxoSet]
    simp only [List.mem_append, or_and_right, exists_or, or_assoc]

/-- One round of the outer loop. -/
theorem registerShard_appended {u : PUnit}
    (h : registerShard model itemHash s es p = (.ok u, p')) (hne : es ≠ [])
    (hes : ∀ e ∈ es, shardIndex itemHash e.1 = s) :
    Appended model itemHash p p' es ∧
      ∀ b, p'.utxoAccumulatorOutputs.containsKey b = true ↔
        p.utxoAccumulatorOutputs.containsKey b = true ∨ FinalRoot model itemHash p es b := by
  simp only [registerShard, Tx.read_bind_ok, Exec.lift_eq_ok] at h
  obtain ⟨t, hd, h⟩ := h
  obtain ⟨t', p₁, hloop, h⟩ := Tx.bind_run_ok.mp h
  obtain ⟨hi, bs, hb, hw⟩ := insertLoop_written hc hloop
  obtain ⟨_, hlast⟩ := WorkingTree.insertAll_spec hc hi
  obtain ⟨root, hroot⟩ := Option.isSome_iff_exists.mp (hlast hne).2.2
  simp only [Tx.read_bind_ok, Exec.lift_eq_ok, hroot, Tx.modify_bind_ok,
    Exec.except_mapError_eq_ok, Tx.modify_ok] at h
  obtain ⟨stored, he, b, hb', rfl⟩ := h
  have hself := onShard_self hes
  refine ⟨⟨fun s' => ?_, fun u => ?_⟩, fun x => ?_⟩
  · by_cases hs : s' = s
    · subst hs
      rw [hself]
      exact ⟨fun hn => absurd hn hne, fun _ => ⟨t, t', bs, stored, hd, hi, hb, he,
        get_insert_self _ _ _, hw.own⟩⟩
    · rw [onShard_other hes (Ne.symm hs)]
      refine ⟨fun _ => ⟨?_, fun i => hw.other s' i hs⟩, fun hn => absurd rfl hn⟩
      rw [get_insert_of_ne _ _ hs, hw.shardTrees]
  · rw [← mem_of_mapM_encodeEntry hb]
    exact hw.utxoSet u
  · rw [containsKey_insert, hw.utxoAccumulatorOutputs, or_comm]
    refine or_congr_right ⟨?_, ?_⟩
    · rintro rfl
      exact ⟨s, t, t', root, by rwa [hself], hd, by rwa [hself], hroot, hb'⟩
    · rintro ⟨s', t₂, t₂', r, hne', hd₂, hi₂, hr, hx⟩
      have hs : s = s' := by
        by_contra hs
        exact hne' (onShard_other hes hs)
      subst hs
      rw [hself] at hi₂
      obtain rfl := Except.ok.inj (hd.symm.trans hd₂)
      obtain rfl := Option.some.inj (hi.symm.trans hi₂)
      obtain rfl := Option.some.inj (hroot.symm.trans hr)
      exact Except.ok.inj (hx.symm.trans hb')

theorem registerShard_total {t t' : WorkingTree c} (hd : decodeTree (p.shardTree s) = .ok t)
    (hi : t.insertAll model itemHash es = some t') (hne : es ≠ []) :
    ∃ u p', registerShard model itemHash s es p = (.ok u, p') := by
  have ⟨_, hlast⟩ := WorkingTree.insertAll_spec hc hi
  have ⟨_, hcap, hroot⟩ := hlast hne
  obtain ⟨root, hroot⟩ := Option.isSome_iff_exists.mp hroot
  obtain ⟨p₁, hloop⟩ : ∃ p₁, insertLoop model itemHash s es t p = (.ok t', p₁) :=
    insertLoop_total hc hi p
  obtain ⟨stored, he, _⟩ := WorkingTree.encodeTree_total hc hcap
  obtain ⟨b, hb⟩ := fpEncode_total hc root
  simp only [registerShard, Tx.read_bind_ok, Exec.lift_eq_ok]
  let p' := { p₁ with
    shardTrees := p₁.shardTrees.insert s stored
    utxoAccumulatorOutputs := p₁.utxoAccumulatorOutputs.insert b () }
  refine ⟨⟨⟩, p', t, hd, Tx.bind_run_ok.mpr ⟨t', p₁, hloop, ?_⟩⟩
  simp only [Tx.read_bind_ok, Exec.lift_eq_ok, hroot, Tx.modify_bind_ok,
    Exec.except_mapError_eq_ok, Tx.modify_ok]
  exact ⟨stored, he, b, hb, rfl⟩

omit hc in
theorem Appended.shardTree_idle (h : Appended model itemHash p p₁ es)
    (hs : onShard itemHash s es = []) : p₁.shardTree s = p.shardTree s := by
  unfold PayStorage.shardTree
  rw [((h.shard s).idle hs).1]

/-- After appending, the tree of a touched shard is read as the result of the insertions. -/
theorem Appended.shardTree_grown (h : Appended model itemHash p p₁ es) {t : WorkingTree c}
    (hs : onShard itemHash s es ≠ []) (hd : decodeTree (p.shardTree s) = .ok t) :
    ∃ t₁, t.insertAll model itemHash (onShard itemHash s es) = some t₁ ∧
      decodeTree (p₁.shardTree s) = .ok { t₁ with nextRoot := none } := by
  obtain ⟨t', t₁, bs, stored, hd', hi, -, he, hst, -⟩ := (h.shard s).grown hs
  obtain rfl := Except.ok.inj (hd.symm.trans hd')
  have hsh : p₁.shardTree s = stored := by unfold PayStorage.shardTree; rw [hst]; rfl
  exact ⟨t₁, hi, hsh ▸ (decodeTree_stored hc hs hi he).1⟩

omit hc in
/-- The root of a shard that the last entries do not touch is the one before them. -/
theorem ShardRoot.of_append_idle {b : Bytes 32} (hf : onShard itemHash s fs = [])
    (hb : ShardRoot model itemHash p s (es ++ fs) b) : ShardRoot model itemHash p s es b := by
  obtain ⟨t, t', root, hne, hd, hi, hr, hb⟩ := hb
  rw [onShard_append, hf, List.append_nil] at hne hi
  exact ⟨t, t', root, hne, hd, hi, hr, hb⟩

theorem ShardRoot.of_append {b : Bytes 32} (h : Appended model itemHash p p₁ es)
    (hf : onShard itemHash s fs ≠ []) (hb : ShardRoot model itemHash p s (es ++ fs) b) :
    ShardRoot model itemHash p₁ s fs b := by
  obtain ⟨t, t', root, hne, hd, hi, hr, hb⟩ := hb
  rw [onShard_append] at hne hi
  by_cases he : onShard itemHash s es = []
  · rw [he, List.nil_append] at hi
    exact ⟨t, t', root, hf, h.shardTree_idle he ▸ hd, hi, hr, hb⟩
  · obtain ⟨t₁, hi₁, hd₁⟩ := h.shardTree_grown hc he hd
    rw [WorkingTree.insertAll_append, hi₁] at hi
    refine ⟨_, t', root, hf, hd₁, ?_, hr, hb⟩
    rw [WorkingTree.insertAll_nextRoot _ hf]
    exact hi

theorem FinalRoot.of_append {b : Bytes 32} (h : Appended model itemHash p p₁ es)
    (hb : FinalRoot model itemHash p (es ++ fs) b) :
    FinalRoot model itemHash p es b ∨ FinalRoot model itemHash p₁ fs b := by
  obtain ⟨s, hb⟩ := hb
  by_cases hf : onShard itemHash s fs = []
  · exact .inl ⟨s, hb.of_append_idle hf⟩
  · exact .inr ⟨s, hb.of_append hc h hf⟩

theorem ShardRoot.append_right {b : Bytes 32} (h : Appended model itemHash p p₁ es)
    (hb : ShardRoot model itemHash p₁ s fs b) : ShardRoot model itemHash p s (es ++ fs) b := by
  obtain ⟨t, t', root, hf, hd, hi, hr, hb⟩ := hb
  by_cases he : onShard itemHash s es = []
  · refine ⟨t, t', root, ?_, h.shardTree_idle he ▸ hd, ?_, hr, hb⟩ <;>
      rwa [onShard_append, he, List.nil_append]
  · obtain ⟨t₀, t₁, bs, stored, hd₀, hi₀, -, he₀, hst, -⟩ := (h.shard s).grown he
    have hsh : p₁.shardTree s = stored := by unfold PayStorage.shardTree; rw [hst]; rfl
    have hdec := (decodeTree_stored hc he hi₀ he₀).1
    obtain rfl := Except.ok.inj (hdec.symm.trans (hsh ▸ hd))
    rw [WorkingTree.insertAll_nextRoot _ hf] at hi
    refine ⟨t₀, t', root, ?_, hd₀, ?_, hr, hb⟩
    · rw [onShard_append]
      exact fun hn => hf (List.append_eq_nil_iff.mp hn).2
    · rw [onShard_append, WorkingTree.insertAll_append, hi₀]
      exact hi

theorem FinalRoot.append_right {b : Bytes 32} (h : Appended model itemHash p p₁ es)
    (hb : FinalRoot model itemHash p₁ fs b) : FinalRoot model itemHash p (es ++ fs) b := by
  obtain ⟨s, hb⟩ := hb
  exact ⟨s, hb.append_right hc h⟩

omit hc in
theorem FinalRoot.append_left {b : Bytes 32}
    (hdis : ∀ s, onShard itemHash s es ≠ [] → onShard itemHash s fs = [])
    (hb : FinalRoot model itemHash p es b) : FinalRoot model itemHash p (es ++ fs) b := by
  obtain ⟨s, t, t', root, hne, hd, hi, hr, hb⟩ := hb
  refine ⟨s, t, t', root, ?_, hd, ?_, hr, hb⟩ <;>
    rwa [onShard_append, hdis s hne, List.append_nil]

omit hc in
theorem Room.left (h : Room model itemHash p (es ++ fs)) : Room model itemHash p es := by
  intro s hne
  obtain ⟨t, t', hd, hi⟩ := h s (by rw [onShard_append]; simp [hne])
  rw [onShard_append, WorkingTree.insertAll_append] at hi
  obtain ⟨t₁, hi₁, -⟩ := Option.bind_eq_some_iff.mp hi
  exact ⟨t, t₁, hd, hi₁⟩

theorem Room.right (h : Room model itemHash p (es ++ fs))
    (happ : Appended model itemHash p p₁ es) : Room model itemHash p₁ fs := by
  intro s hne
  obtain ⟨t, t', hd, hi⟩ := h s (by rw [onShard_append]; simp [hne])
  rw [onShard_append] at hi
  by_cases he : onShard itemHash s es = []
  · rw [he, List.nil_append] at hi
    exact ⟨t, t', happ.shardTree_idle he ▸ hd, hi⟩
  · obtain ⟨t₁, hi₁, hd₁⟩ := happ.shardTree_grown hc he hd
    rw [WorkingTree.insertAll_append, hi₁] at hi
    refine ⟨_, t', hd₁, ?_⟩
    rw [WorkingTree.insertAll_nextRoot _ hne]
    exact hi

omit hc in
theorem Appended.room (h : Appended model itemHash p p₁ es) : Room model itemHash p es := by
  intro s hne
  obtain ⟨t, t', -, -, hd, hi, -⟩ := (h.shard s).grown hne
  exact ⟨t, t', hd, hi⟩

end Lawful

/-- The groups a batch is registered in: non-empty, of one shard each, of different shards. -/
structure Groups (itemHash : c.ItemHash) (gs : List (Fin 256 × List (Entry c))) : Prop where
  ne_nil : ∀ g ∈ gs, g.2 ≠ []
  shard : ∀ g ∈ gs, ∀ e ∈ g.2, shardIndex itemHash e.1 = g.1
  sorted : gs.Pairwise (·.1 < ·.1)

theorem Groups.cons {g : Fin 256 × List (Entry c)} {gs : List (Fin 256 × List (Entry c))}
    (h : Groups itemHash (g :: gs)) :
    g.2 ≠ [] ∧ (∀ e ∈ g.2, shardIndex itemHash e.1 = g.1) ∧ Groups itemHash gs ∧
      ∀ s, onShard itemHash s g.2 ≠ [] → onShard itemHash s (gs.flatMap Prod.snd) = [] := by
  have hsorted := List.pairwise_cons.mp h.sorted
  refine ⟨h.ne_nil g (by simp), h.shard g (by simp), ⟨fun x hx => h.ne_nil x (by simp [hx]),
    fun x hx => h.shard x (by simp [hx]), hsorted.2⟩, fun s hs => ?_⟩
  rw [onShard, List.filter_eq_nil_iff]
  intro e he
  obtain ⟨g', hg', he'⟩ := List.mem_flatMap.mp he
  have hlt := hsorted.1 g' hg'
  have hes := h.shard g' (by simp [hg']) e he'
  have hgs : g.1 = s := by
    by_contra hne
    exact hs (onShard_other (h.shard g (by simp)) hne)
  simp only [hes, ← hgs, decide_eq_true_eq]
  exact hlt.ne'

section Batch
variable (hc : c.Lawful) {gs : List (Fin 256 × List (Entry c))}
include hc

theorem registerShards_appended {u : PUnit} (hg : Groups itemHash gs)
    (h : registerShards model itemHash gs p = (.ok u, p')) :
    Appended model itemHash p p' (gs.flatMap Prod.snd) ∧
      ∀ b, p'.utxoAccumulatorOutputs.containsKey b = true ↔
        p.utxoAccumulatorOutputs.containsKey b = true ∨
          FinalRoot model itemHash p (gs.flatMap Prod.snd) b := by
  induction gs generalizing p with
  | nil =>
    obtain ⟨-, rfl⟩ := Tx.pure_ok.mp h
    exact ⟨Appended.refl _, fun b => ⟨.inl, fun hb => hb.elim id
      fun ⟨_, _, _, _, hne, _⟩ => absurd rfl hne⟩⟩
  | cons g gs ih =>
    obtain ⟨u₁, p₁, h₁, h₂⟩ := Tx.bind_run_ok.mp h
    obtain ⟨hne, hs, hgs, hdis⟩ := hg.cons
    have ⟨happ₁, hout₁⟩ := registerShard_appended hc h₁ hne hs
    have ⟨happ₂, hout₂⟩ := ih hgs h₂
    refine ⟨happ₁.trans hc happ₂, fun b => ?_⟩
    rw [hout₂, hout₁, or_assoc]
    refine or_congr_right ⟨?_, fun hb => hb.of_append hc happ₁⟩
    rintro (hb | hb)
    · exact hb.append_left hdis
    · exact hb.append_right hc happ₁

theorem registerShards_total (hg : Groups itemHash gs)
    (hr : Room model itemHash p (gs.flatMap Prod.snd)) :
    ∃ u p', registerShards model itemHash gs p = (.ok u, p') := by
  induction gs generalizing p with
  | nil => exact ⟨⟨⟩, p, rfl⟩
  | cons g gs ih =>
    obtain ⟨hne, hs, hgs, -⟩ := hg.cons
    have hroom : Room model itemHash p (g.2 ++ gs.flatMap Prod.snd) := hr
    obtain ⟨t, t', hd, hi⟩ := hroom.left g.1 (by rwa [onShard_self hs])
    rw [onShard_self hs] at hi
    obtain ⟨u₁, p₁, h₁⟩ := registerShard_total hc hd hi hne
    have ⟨happ, _⟩ := registerShard_appended hc h₁ hne hs
    obtain ⟨u, p', h₂⟩ := ih hgs (hroom.right hc happ)
    exact ⟨u, p', Tx.bind_run_ok.mpr ⟨u₁, p₁, h₁, h₂⟩⟩

end Batch
end ProxyLedger

end ZkNft
