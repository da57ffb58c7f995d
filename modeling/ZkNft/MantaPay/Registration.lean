import ZkNft.MantaPay.ShardHistory

/-! A batch against the registration of its pairs one at a time. -/

namespace ZkNft
open StorageMap

namespace ProxyLedger
variable {c : Crypto} {model : c.Model} {itemHash : c.ItemHash} {p p₁ : PayStorage}
  {es : List (Entry c)} {s : Fin 256}

/-- The tree that is read back has the leaves that the stored one counts. -/
theorem decodeTree_leaves {tree : UtxoMerkleTreePath} {t : WorkingTree c}
    (h : decodeTree tree = .ok t) : t.size = tree.leaves := by
  simp only [decodeTree, Exec.except_bind_eq_ok, Exec.except_mapError_eq_ok] at h
  obtain ⟨path, hpath, leaf, hleaf, h⟩ := h
  obtain rfl := Except.ok.inj h
  simp only [CurrentPath.tryInto, Exec.except_bind_eq_ok] at hpath
  obtain ⟨digest, -, inner, -, hpath⟩ := hpath
  obtain rfl := Except.ok.inj hpath
  have hsome : leaf.isSome = tree.leafDigest.isSome := by
    cases hd : tree.leafDigest with
    | none =>
      rw [hd] at hleaf
      obtain rfl := Except.ok.inj hleaf
      rfl
    | some d =>
      rw [hd, Option.mapM_some] at hleaf
      obtain ⟨x, -, hx⟩ := Exec.except_bind_eq_ok.mp hleaf
      obtain rfl := Except.ok.inj hx
      rfl
  simp only [WorkingTree.size, UtxoMerkleTreePath.leaves, hsome]

/-- The pairs of a shard stand behind its leaves, in order. -/
theorem Appended.get_shard (h : Appended model itemHash p p₁ es)
    {bs : List (Utxo × FullIncomingNote)}
    (hbs : (onShard itemHash s es).mapM encodeEntry = .ok bs) {k : ℕ} (hk : k < bs.length) :
    p₁.shards.get (s, (p.shardTree s).leaves + k) = bs[k]? := by
  have hne : onShard itemHash s es ≠ [] := by
    intro he
    rw [he] at hbs
    obtain rfl := Except.ok.inj hbs
    exact absurd hk (Nat.not_lt_zero k)
  obtain ⟨t, t', bs', stored, hd, -, hb, -, -, hget⟩ := (h.shard s).grown hne
  obtain rfl := Except.ok.inj (hbs.symm.trans hb)
  rw [hget, ← decodeTree_leaves hd, overlay, if_pos (by omega), Nat.add_sub_cancel_left]

/-- `register_all` reaches the shards, trees and UTXO set of the pairs registered one at a time;
of their accumulator outputs it keeps the final root of each touched shard. -/
theorem registerAll_refines (hc : c.Lawful) (hm : loadModel c = .ok model)
    (hk : loadItemHash c = .ok itemHash) (hp : ShardInvariant itemHash p)
    (hinsert : ∀ s (t : WorkingTree c), decodeTree (p.shardTree s) = .ok t →
      (t.insertAll model itemHash (onShard itemHash s es)).isSome = true) :
    ∃ p₁ p₂, registerAll es p = (.ok ⟨⟩, p₁) ∧ registerEach es p = (.ok ⟨⟩, p₂) ∧
      p₁.utxoSet = p₂.utxoSet ∧ p₁.shards = p₂.shards ∧ p₁.shardTrees = p₂.shardTrees ∧
      (∀ b, p₁.utxoAccumulatorOutputs.containsKey b = true →
        p₂.utxoAccumulatorOutputs.containsKey b = true) ∧
      (∀ s, onShard itemHash s es ≠ [] → ∃ b, ShardRoot model itemHash p s es b ∧
        p₁.utxoAccumulatorOutputs.containsKey b = true) ∧
      ∀ s, ∃ bs, (onShard itemHash s es).mapM encodeEntry = .ok bs ∧
        ∀ k, k < bs.length → p₁.shards.get (s, (p.shardTree s).leaves + k) = bs[k]? := by
  have hroom : Room model itemHash p es := by
    intro s _
    obtain ⟨t, ht⟩ := hp.readable s
    obtain ⟨t', ht'⟩ := Option.isSome_iff_exists.mp (hinsert s t ht)
    exact ⟨t, t', ht, ht'⟩
  obtain ⟨p₁, h₁⟩ := registerAll_total hc hm hk hroom
  obtain ⟨p₂, h₂⟩ := registerEach_total hc hm hk hroom
  have ⟨happ₁, hout₁⟩ := registerAll_appended hc hm hk h₁
  have ⟨happ₂, hout₂⟩ := registerEach_appended hc hm hk h₂
  have ⟨hset, hshards, htrees⟩ := happ₁.unique happ₂
  refine ⟨p₁, p₂, h₁, h₂, hset, hshards, htrees, fun b hb => hout₂ b ((hout₁ b).mp hb), ?_, ?_⟩
  · intro s hne
    obtain ⟨t, t', ht, hi⟩ := hroom s hne
    have ⟨_, hlast⟩ := WorkingTree.insertAll_spec hc hi
    obtain ⟨root, hroot⟩ := Option.isSome_iff_exists.mp (hlast hne).2.2
    obtain ⟨b, hb⟩ := fpEncode_total hc root
    have hshard : ShardRoot model itemHash p s es b := ⟨t, t', root, hne, ht, hi, hroot, hb⟩
    exact ⟨b, hshard, (hout₁ b).mpr (.inr ⟨s, hshard⟩)⟩
  · intro s
    obtain ⟨bs, hbs⟩ := mapM_encodeEntry_total hc (onShard itemHash s es)
    exact ⟨bs, hbs, fun k hlt => happ₁.get_shard hbs hlt⟩

section Witness
open Sample

theorem registerAll_refines_sample :
    ∃ p₁ p₂, registerAll pairs final.pay = (.ok ⟨⟩, p₁) ∧
      registerEach pairs final.pay = (.ok ⟨⟩, p₂) ∧
      p₁.utxoSet = p₂.utxoSet ∧ p₁.shards = p₂.shards ∧ p₁.shardTrees = p₂.shardTrees ∧
      (∀ b, p₁.utxoAccumulatorOutputs.containsKey b = true →
        p₂.utxoAccumulatorOutputs.containsKey b = true) ∧
      (∀ s, onShard (c := crypto) () s pairs ≠ [] → ∃ b,
        ShardRoot (c := crypto) () () final.pay s pairs b ∧
          p₁.utxoAccumulatorOutputs.containsKey b = true) ∧
      ∀ s, ∃ bs, (onShard (c := crypto) () s pairs).mapM encodeEntry = .ok bs ∧
        ∀ k, k < bs.length → p₁.shards.get (s, (final.pay.shardTree s).leaves + k) = bs[k]? := by
  have hhist : ShardHistory (c := crypto) () () (postedBatches history) final.pay :=
    ZkNft.run_shardHistory runtime_lawful rfl rfl rfl run_history
  have hlen : (registered history).length = 5 := by decide +kernel
  refine registerAll_refines crypto_lawful rfl rfl
    (hhist.appended.invariant crypto_lawful hhist.distinct) ?_
  intro s t ht
  obtain ⟨bs, hbs, -, hleaves, -⟩ := hhist.appended.shard_lists crypto_lawful s
  have hle : bs.length ≤ 5 := by
    rw [← (Exec.except_mapM_eq_ok.mp hbs).length_eq, ← hlen]
    exact List.length_filter_le _ _
  have hne : (onShard (c := crypto) () s pairs).length ≤ 3 := List.length_filter_le _ _
  refine insertAll_isSome () () _ t ?_
  rw [decodeTree_leaves ht, hleaves]
  omega

end Witness

end ProxyLedger

end ZkNft
