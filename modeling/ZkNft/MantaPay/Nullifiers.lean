import ZkNft.MantaPay.Ledger

/-! The nullifier ledger as an append-only list. -/

namespace ZkNft
open StorageMap

/-- The two storages hold the same UTXO ledger. -/
structure PayStorage.SameUtxos (p p' : PayStorage) : Prop where
  utxoSet : p'.utxoSet = p.utxoSet
  shards : p'.shards = p.shards
  shardTrees : p'.shardTrees = p.shardTrees
  utxoAccumulatorOutputs : p'.utxoAccumulatorOutputs = p.utxoAccumulatorOutputs

/-- The nullifier storage is the list `l` in insertion order, except for the counter. -/
structure NullifierEntries (p : PayStorage) (l : List (Bytes 32 × OutgoingNote)) : Prop where
  lists : Lists p.nullifierSetInsertionOrder.get l
  mem : ∀ x, p.nullifierCommitmentSet.containsKey x = true ↔ x ∈ l.map Prod.fst

/-- The nullifier storage is the list `l`, each commitment once. -/
structure NullifierLedger (p : PayStorage) (l : List (Bytes 32 × OutgoingNote)) : Prop
    extends NullifierEntries p l where
  size : p.nullifierSetSize = l.length
  nodup : (l.map Prod.fst).Nodup

theorem genesis_nullifierLedger : NullifierLedger .genesis [] :=
  { lists := Lists.nil
    mem := by simp [PayStorage.genesis, StorageMap.containsKey]
    size := rfl
    nodup := List.nodup_nil }

namespace ProxyLedger
variable {c : Crypto} {p p' : PayStorage}

/-- The stored form of a nullifier. -/
def encodeNullifier (nullifier : Config.Nullifier c.toFields) :
    Except SenderLedgerError (Bytes 32 × OutgoingNote) := do
  let commitment ← (fpEncode nullifier.commitment).mapError .fpEncodeError
  let note ← (OutgoingNote.tryFrom nullifier.outgoingNote).mapError .outgoingNoteDecodeError
  return (commitment, note)

theorem encodeNullifier_eq_ok {n : Config.Nullifier c.toFields} {b : Bytes 32 × OutgoingNote} :
    encodeNullifier n = .ok b ↔
      fpEncode n.commitment = .ok b.1 ∧ OutgoingNote.tryFrom n.outgoingNote = .ok b.2 := by
  simp only [encodeNullifier, Exec.except_bind_eq_ok, Exec.except_mapError_eq_ok]
  constructor
  · rintro ⟨x, hx, y, hy, h⟩
    obtain rfl := Except.ok.inj h
    exact ⟨hx, hy⟩
  · rintro ⟨hx, hy⟩
    exact ⟨_, hx, _, hy, rfl⟩

theorem isUnspent_eq_ok {n n' : Config.Nullifier c.toFields} :
    isUnspent p n = .ok n' ↔ n' = n ∧
      ∃ b, fpEncode n.commitment = .ok b ∧ p.nullifierCommitmentSet.containsKey b = false := by
  simp only [isUnspent, Exec.except_bind_eq_ok, Exec.except_mapError_eq_ok]
  constructor
  · rintro ⟨b, hb, h⟩
    split_ifs at h with hc
    exact ⟨(Except.ok.inj h).symm, b, hb, by simpa using hc⟩
  · rintro ⟨rfl, b, hb, hc⟩
    exact ⟨b, hb, if_neg (by simp [hc])⟩

/-- Writing a nullifier under the next free key appends it. -/
theorem NullifierEntries.push {l : List (Bytes 32 × OutgoingNote)} (h : NullifierEntries p l)
    (b : Bytes 32 × OutgoingNote) :
    NullifierEntries
      { p with
        nullifierCommitmentSet := p.nullifierCommitmentSet.insert b.1 ()
        nullifierSetInsertionOrder := p.nullifierSetInsertionOrder.insert l.length b }
      (l ++ [b]) where
  lists := h.lists.append (get_insert_self _ _ _) fun _ hi => get_insert_of_ne _ _ hi
  mem x := by
    rw [containsKey_insert, h.mem, List.map_append, List.mem_append, or_comm]
    simp

theorem spendLoop_frame {index i j : ℕ} {es : List (c.Fp × Config.Nullifier c.toFields)}
    (h : spendLoop index i es p = (.ok j, p')) :
    p.SameUtxos p' ∧ p'.nullifierSetSize = p.nullifierSetSize := by
  induction es generalizing i p with
  | nil =>
    obtain ⟨rfl, rfl⟩ := Tx.pure_ok.mp h
    exact ⟨⟨rfl, rfl, rfl, rfl⟩, rfl⟩
  | cons e es ih =>
    simp only [spendLoop, Tx.read_bind_ok, Tx.modify_bind_ok] at h
    obtain ⟨b, -, note, -, h⟩ := h
    have ⟨hs, hsize⟩ := ih h
    exact ⟨⟨hs.1, hs.2, hs.3, hs.4⟩, hsize⟩

theorem spendLoop_entries {index i j : ℕ} {es : List (c.Fp × Config.Nullifier c.toFields)}
    {l : List (Bytes 32 × OutgoingNote)} (h : spendLoop index i es p = (.ok j, p'))
    (hl : NullifierEntries p l) (hi : index + i = l.length) :
    ∃ bs, es.mapM (fun e => encodeNullifier e.2) = .ok bs ∧ j = i + bs.length ∧
      NullifierEntries p' (l ++ bs) := by
  induction es generalizing i p l with
  | nil =>
    obtain ⟨rfl, rfl⟩ := Tx.pure_ok.mp h
    exact ⟨[], rfl, rfl, by simpa using hl⟩
  | cons e es ih =>
    simp only [spendLoop, Tx.read_bind_ok, Tx.modify_bind_ok, Exec.lift_eq_ok,
      Exec.except_mapError_eq_ok] at h
    obtain ⟨b, hb, note, hn, h⟩ := h
    rw [hi] at h
    have hlen : index + (i + 1) = (l ++ [(b, note)]).length := by
      simp only [List.length_append, List.length_singleton]
      omega
    obtain ⟨bs, hbs, hj, hl'⟩ := ih h (NullifierEntries.push hl (b, note)) hlen
    have he : encodeNullifier e.2 = .ok (b, note) := encodeNullifier_eq_ok.mpr ⟨hb, hn⟩
    refine ⟨(b, note) :: bs, ?_, ?_, by simpa using hl'⟩
    · simp only [List.mapM_cons, he, hbs]
      rfl
    · simp only [List.length_cons]
      omega

theorem spendAll_sameUtxos {es : List (c.Fp × Config.Nullifier c.toFields)} {u : PUnit}
    (h : spendAll es p = (.ok u, p')) : p.SameUtxos p' := by
  simp only [spendAll, Tx.read_bind_ok] at h
  obtain ⟨index, -, h⟩ := h
  obtain ⟨j, p₁, hloop, h⟩ := Tx.bind_run_ok.mp h
  have ⟨hs, _⟩ := spendLoop_frame hloop
  split_ifs at h
  · obtain rfl := Tx.modify_ok.mp h
    exact ⟨hs.1, hs.2, hs.3, hs.4⟩
  · obtain ⟨-, rfl⟩ := Tx.pure_ok.mp h
    exact hs

/-- A successful `spend_all` appends the stored forms of the nullifiers and counts them. -/
theorem spendAll_entries {es : List (c.Fp × Config.Nullifier c.toFields)}
    {l : List (Bytes 32 × OutgoingNote)} {u : PUnit} (h : spendAll es p = (.ok u, p'))
    (hl : NullifierEntries p l) (hsize : p.nullifierSetSize = l.length) :
    ∃ bs, es.mapM (fun e => encodeNullifier e.2) = .ok bs ∧
      NullifierEntries p' (l ++ bs) ∧ p'.nullifierSetSize = (l ++ bs).length := by
  simp only [spendAll, Tx.read_bind_ok] at h
  obtain ⟨index, hindex, h⟩ := h
  obtain rfl := Exec.ok.inj hindex
  obtain ⟨j, p₁, hloop, h⟩ := Tx.bind_run_ok.mp h
  have ⟨_, hsize₁⟩ := spendLoop_frame hloop
  obtain ⟨bs, hbs, hj, hl'⟩ := spendLoop_entries hloop hl (by omega)
  split_ifs at h with hne
  · obtain rfl := Tx.modify_ok.mp h
    refine ⟨bs, hbs, ⟨hl'.1, hl'.2⟩, ?_⟩
    simp only [List.length_append]
    omega
  · obtain ⟨-, rfl⟩ := Tx.pure_ok.mp h
    refine ⟨bs, hbs, hl', ?_⟩
    simp only [hsize₁, List.length_append]
    omega

theorem encodeNullifier_total (hc : c.Lawful) (n : Config.Nullifier c.toFields) :
    ∃ b, encodeNullifier n = .ok b := by
  obtain ⟨x, hx⟩ := fpEncode_total hc n.commitment
  obtain ⟨y, hy⟩ := hc.fixedLength.outgoingNote n.outgoingNote
  exact ⟨(x, y), encodeNullifier_eq_ok.mpr ⟨hx, hy⟩⟩

theorem spendLoop_total (hc : c.Lawful) (index i : ℕ)
    (es : List (c.Fp × Config.Nullifier c.toFields)) (p : PayStorage) :
    ∃ j p', spendLoop index i es p = (.ok j, p') := by
  induction es generalizing i p with
  | nil => exact ⟨i, p, rfl⟩
  | cons e es ih =>
    obtain ⟨b, hb⟩ := encodeNullifier_total hc e.2
    obtain ⟨hb₁, hb₂⟩ := encodeNullifier_eq_ok.mp hb
    simp only [spendLoop, Tx.read_bind_ok, Tx.modify_bind_ok, Exec.lift_eq_ok,
      Exec.except_mapError_eq_ok]
    obtain ⟨j, p', h⟩ := ih (i + 1) _
    exact ⟨j, p', _, hb₁, _, hb₂, h⟩

theorem spendAll_total (hc : c.Lawful) (es : List (c.Fp × Config.Nullifier c.toFields))
    (p : PayStorage) : ∃ u p', spendAll es p = (.ok u, p') := by
  obtain ⟨j, p', h⟩ := spendLoop_total hc p.nullifierSetSize 0 es p
  simp only [spendAll, Tx.read_bind_ok]
  by_cases hj : j = 0
  · exact ⟨⟨⟩, p', _, rfl, Tx.bind_run_ok.mpr ⟨j, p', h, by rw [if_neg (not_not.mpr hj)]; rfl⟩⟩
  · exact ⟨⟨⟩, _, _, rfl, Tx.bind_run_ok.mpr ⟨j, p', h, by rw [if_pos hj]; rfl⟩⟩

end ProxyLedger

end ZkNft
