import ZkNft.MantaPay.Nullifiers

/-! The trees of the shards under insertion, and what the inner loop of `register_all` writes. -/

namespace ZkNft

/-- The two storages hold the same nullifier ledger. -/
structure PayStorage.SameNullifiers (p p' : PayStorage) : Prop where
  nullifierCommitmentSet : p'.nullifierCommitmentSet = p.nullifierCommitmentSet
  nullifierSetInsertionOrder : p'.nullifierSetInsertionOrder = p.nullifierSetInsertionOrder
  nullifierSetSize : p'.nullifierSetSize = p.nullifierSetSize

theorem PayStorage.SameNullifiers.trans {p p₁ p' : PayStorage} (h : p.SameNullifiers p₁)
    (h' : p₁.SameNullifiers p') : p.SameNullifiers p' :=
  ⟨h'.1.trans h.1, h'.2.trans h.2, h'.3.trans h.3⟩

namespace WorkingTree
variable {c : Crypto} (model : c.Model) (itemHash : c.ItemHash)

/-- The tree after the item of one entry. -/
def insert (tree : WorkingTree c) (entry : Entry c) : Option (WorkingTree c) :=
  (c.insert model tree.leafDigest tree.currentPath (c.itemHash itemHash entry.1)).map
    fun (leafDigest, currentPath, root) => ⟨leafDigest, currentPath, some root⟩

def insertAll (tree : WorkingTree c) (entries : List (Entry c)) : Option (WorkingTree c) :=
  entries.foldlM (insert model itemHash) tree

/-- The number of leaves. -/
def size (tree : WorkingTree c) : ℕ :=
  if tree.leafDigest.isSome then tree.currentPath.leafIndex + 1 else 0

variable {model itemHash} {t t' : WorkingTree c} {e : Entry c} {es fs : List (Entry c)}

theorem insertAll_cons :
    insertAll model itemHash t (e :: es) =
      (insert model itemHash t e).bind fun t₁ => insertAll model itemHash t₁ es := by
  simp [insertAll]

theorem insertAll_append :
    insertAll model itemHash t (es ++ fs) =
      (insertAll model itemHash t es).bind fun t₁ => insertAll model itemHash t₁ fs := by
  simp [insertAll]

/-- An insertion does not look at the root of the last one. -/
theorem insertAll_nextRoot (r : Option c.Fp) (h : es ≠ []) :
    insertAll model itemHash { t with nextRoot := r } es = insertAll model itemHash t es := by
  cases es with
  | nil => exact absurd rfl h
  | cons e es => rfl

section Lawful
variable (hc : c.Lawful)
include hc

theorem insert_spec (h : insert model itemHash t e = some t') :
    t'.leafDigest.isSome ∧ t'.currentPath.leafIndex = t.size ∧ t'.size = t.size + 1 ∧
      t'.currentPath.leafIndex < 2 ^ 32 ∧ t'.nextRoot.isSome := by
  obtain ⟨⟨d, q, r⟩, hi, rfl⟩ := Option.map_eq_some_iff.mp h
  have ⟨hd, hq⟩ := hc.insert_index _ _ _ _ _ _ _ hi
  have hcap := hc.insert_capacity _ _ _ _ _ _ _ hi
  simp only [size, hd, hq, if_true, Option.isSome_some, true_and, and_true]
  rw [hq] at hcap
  exact hcap

theorem insertAll_spec (h : insertAll model itemHash t es = some t') :
    t'.size = t.size + es.length ∧
      (es ≠ [] → t'.leafDigest.isSome ∧ t'.currentPath.leafIndex < 2 ^ 32 ∧
        t'.nextRoot.isSome) := by
  induction es generalizing t with
  | nil =>
    obtain rfl := Option.some.inj h
    exact ⟨rfl, fun hne => absurd rfl hne⟩
  | cons e es ih =>
    rw [insertAll_cons] at h
    obtain ⟨t₁, h₁, h₂⟩ := Option.bind_eq_some_iff.mp h
    have hs := insert_spec hc h₁
    have ⟨hsize, hne⟩ := ih h₂
    refine ⟨by simp only [List.length_cons]; omega, fun _ => ?_⟩
    by_cases he : es = []
    · subst he
      obtain rfl := Option.some.inj h₂
      exact ⟨hs.1, hs.2.2.2.1, hs.2.2.2.2⟩
    · exact hne he

/-- A tree with a leaf index of 32 bits is stored and read back. -/
theorem encodeTree_total (h : t.currentPath.leafIndex < 2 ^ 32) :
    ∃ stored, ProxyLedger.encodeTree t = .ok stored ∧
      ProxyLedger.decodeTree stored = .ok { t with nextRoot := none } ∧
      stored.leafDigest.isSome = t.leafDigest.isSome ∧
      stored.currentPath.leafIndex.toNat = t.currentPath.leafIndex := by
  obtain ⟨q, hq, hq', hi⟩ := CurrentPath.tryFrom_total hc t.currentPath h
  rcases t with ⟨_ | d, path, r⟩
  · refine ⟨⟨none, q⟩, ?_, ?_, rfl, hi⟩
    · simp only [ProxyLedger.encodeTree, hq]
      rfl
    · simp only [ProxyLedger.decodeTree, hq']
      rfl
  · obtain ⟨b, hb⟩ := fpEncode_total hc d
    refine ⟨⟨some b, q⟩, ?_, ?_, rfl, hi⟩
    · simp only [ProxyLedger.encodeTree, hq, Option.mapM_some, hb]
      rfl
    · simp only [ProxyLedger.decodeTree, hq', Option.mapM_some, fpDecode_fpEncode hc hb]
      rfl

end Lawful
end WorkingTree

namespace ProxyLedger
open StorageMap
variable {c : Crypto} {p p' : PayStorage}

/-- The stored form of a UTXO and its note. -/
def encodeEntry (entry : Entry c) :
    Except (ReceiverLedgerError c) (Utxo × FullIncomingNote) := do
  let utxo ← (Utxo.tryFrom entry.1).mapError .utxoDecodeError
  let note ← (FullIncomingNote.tryFrom entry.2).mapError .fullNoteDecodeError
  return (utxo, note)

theorem encodeEntry_eq_ok {e : Entry c} {b : Utxo × FullIncomingNote} :
    encodeEntry e = .ok b ↔
      Utxo.tryFrom e.1 = .ok b.1 ∧ FullIncomingNote.tryFrom e.2 = .ok b.2 := by
  simp only [encodeEntry, Exec.except_bind_eq_ok, Exec.except_mapError_eq_ok]
  constructor
  · rintro ⟨x, hx, y, hy, h⟩
    obtain rfl := Except.ok.inj h
    exact ⟨hx, hy⟩
  · rintro ⟨hx, hy⟩
    exact ⟨_, hx, _, hy, rfl⟩

theorem encodeEntry_total (hc : c.Lawful) (e : Entry c) : ∃ b, encodeEntry e = .ok b := by
  obtain ⟨u, hu⟩ := Utxo.tryFrom_total hc e.1
  obtain ⟨n, hn⟩ := FullIncomingNote.tryFrom_total hc e.2
  exact ⟨(u, n), encodeEntry_eq_ok.mpr ⟨hu, hn⟩⟩

theorem mapM_encodeEntry_total (hc : c.Lawful) (es : List (Entry c)) :
    ∃ bs, es.mapM encodeEntry = .ok bs :=
  Exec.except_mapM_total (encodeEntry_total hc) es

/-- `bs` was written to `shard` from key `n` on, and to the UTXO set. -/
structure Written (p p' : PayStorage) (shard : Fin 256) (n : ℕ)
    (bs : List (Utxo × FullIncomingNote)) : Prop where
  own : ∀ i, p'.shards.get (shard, i) = overlay (fun j => p.shards.get (shard, j)) n bs i
  other : ∀ s i, s ≠ shard → p'.shards.get (s, i) = p.shards.get (s, i)
  utxoSet : ∀ u, p'.utxoSet.containsKey u = true ↔
    p.utxoSet.containsKey u = true ∨ u ∈ bs.map Prod.fst
  shardTrees : p'.shardTrees = p.shardTrees
  utxoAccumulatorOutputs : p'.utxoAccumulatorOutputs = p.utxoAccumulatorOutputs

theorem Written.nil (p : PayStorage) (shard : Fin 256) (n : ℕ) : Written p p shard n [] where
  own i := by rw [overlay_nil]
  other _ _ _ := rfl
  utxoSet u := by simp
  shardTrees := rfl
  utxoAccumulatorOutputs := rfl

/-- One round of the loop, followed by the rest. -/
theorem Written.cons {shard : Fin 256} {n : ℕ} {b : Utxo × FullIncomingNote}
    {bs : List (Utxo × FullIncomingNote)}
    (h : Written { p with utxoSet := p.utxoSet.insert b.1 (),
                          shards := p.shards.insert (shard, n) b } p' shard (n + 1) bs) :
    Written p p' shard n (b :: bs) where
  own i := by
    rw [h.own, ← overlay_cons]
    simp only [get_insert, Prod.mk.injEq, true_and]
  other s i hs := by
    rw [h.other s i hs]
    exact get_insert_of_ne _ _ fun he => hs (Prod.mk.inj he).1
  utxoSet u := by
    rw [h.utxoSet, containsKey_insert, List.map_cons, List.mem_cons]
    tauto
  shardTrees := h.shardTrees
  utxoAccumulatorOutputs := h.utxoAccumulatorOutputs

section Loop
variable (hc : c.Lawful) {model : c.Model} {itemHash : c.ItemHash} {shard : Fin 256}
  {t t' : WorkingTree c} {es : List (Entry c)}
include hc

/-- The loop inserts the entries one after the other and writes each under its leaf index. -/
theorem insertLoop_written (h : insertLoop model itemHash shard es t p = (.ok t', p')) :
    WorkingTree.insertAll model itemHash t es = some t' ∧
      ∃ bs, es.mapM encodeEntry = .ok bs ∧ Written p p' shard t.size bs := by
  induction es generalizing t p with
  | nil =>
    obtain ⟨rfl, rfl⟩ := Tx.pure_ok.mp h
    exact ⟨rfl, [], rfl, Written.nil p' shard _⟩
  | cons e es ih =>
    obtain ⟨utxo, note⟩ := e
    simp only [insertLoop, Tx.read_bind_ok, Tx.modify_bind_ok, Exec.lift_eq_ok, Exec.okOr_eq_ok,
      Exec.except_mapError_eq_ok] at h
    obtain ⟨⟨d, q, r⟩, hi, u, hu, n, hn, h⟩ := h
    have hins : WorkingTree.insert model itemHash t (utxo, note) = some ⟨d, q, some r⟩ :=
      Option.map_eq_some_iff.mpr ⟨_, hi, rfl⟩
    have hs := WorkingTree.insert_spec hc hins
    obtain ⟨hall, bs, hbs, hw⟩ := ih h
    have he : encodeEntry (utxo, note) = .ok (u, n) := encodeEntry_eq_ok.mpr ⟨hu, hn⟩
    refine ⟨?_, (u, n) :: bs, ?_, ?_⟩
    · rw [WorkingTree.insertAll_cons, hins]
      exact hall
    · simp only [List.mapM_cons, he, hbs]
      rfl
    · have hq : q.leafIndex = t.size := hs.2.1
      rw [hs.2.2.1, hq] at hw
      exact Written.cons hw

theorem insertLoop_total (h : WorkingTree.insertAll model itemHash t es = some t')
    (p : PayStorage) : ∃ p', insertLoop model itemHash shard es t p = (.ok t', p') := by
  induction es generalizing t p with
  | nil =>
    obtain rfl := Option.some.inj h
    exact ⟨p, rfl⟩
  | cons e es ih =>
    rw [WorkingTree.insertAll_cons] at h
    obtain ⟨t₁, h₁, h₂⟩ := Option.bind_eq_some_iff.mp h
    obtain ⟨⟨d, q, r⟩, hi, rfl⟩ := Option.map_eq_some_iff.mp h₁
    obtain ⟨b, hb⟩ := encodeEntry_total hc e
    obtain ⟨hu, hn⟩ := encodeEntry_eq_ok.mp hb
    simp only [insertLoop, Tx.read_bind_ok, Tx.modify_bind_ok, Exec.lift_eq_ok, Exec.okOr_eq_ok,
      Exec.except_mapError_eq_ok]
    obtain ⟨p', hp'⟩ := ih h₂ _
    exact ⟨p', _, hi, _, hu, _, hn, hp'⟩

end Loop
end ProxyLedger

end ZkNft
