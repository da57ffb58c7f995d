import Mathlib.Algebra.BigOperators.Fin
import Mathlib.Data.Set.Card
import ZkNft.MantaPay.Sync

/-! The `senders_receivers_total` of a pull response against the size of the ledger. -/

namespace ZkNft
open StorageMap TransferLedger ProxyLedger

/-- The keys of `Shards`. -/
def PayStorage.entries (p : PayStorage) : Set (Fin 256 × ℕ) :=
  {k | p.shards.containsKey k = true}

/-- The number that a wallet reads in `senders_receivers_total`. -/
def PullResponse.total (response : PullResponse) : AssetValue :=
  assetValueDecode response.sendersReceiversTotal

/-- The sum of the leaf indices of the stored trees. -/
def PayStorage.leafIndices (p : PayStorage) : ℕ :=
  ∑ i, (p.shardTree i).currentPath.leafIndex.toNat

/-- The number of shards whose tree has a leaf. -/
def PayStorage.occupied (p : PayStorage) : ℕ :=
  (Finset.univ.filter fun i => (p.shardTree i).leaves ≠ 0).card

theorem sum_ofNat {ι : Type*} (w : ℕ) (l : List ι) (f : ι → ℕ) :
    (l.map fun i => BitVec.ofNat w (f i)).sum = BitVec.ofNat w (l.map f).sum := by
  induction l with
  | nil => rfl
  | cons i l ih => rw [List.map_cons, List.sum_cons, ih, List.map_cons, List.sum_cons,
      BitVec.ofNat_add]

/-- The response carries the sum of the leaf indices in place of the number of leaves. -/
theorem pullLedgerDiff_total (p : PayStorage) (checkpoint : Checkpoint)
    (maxReceivers maxSenders : ℕ) :
    (Pallet.pullLedgerDiff p checkpoint maxReceivers maxSenders).total =
      BitVec.ofNat 128 (p.leafIndices + p.nullifierSetSize) := by
  have hindex : ∀ i, (p.shardTree i).currentPath.leafIndex.setWidth 128 =
      BitVec.ofNat 128 (p.shardTree i).currentPath.leafIndex.toNat := by
    intro i
    rw [BitVec.ofNat_toNat]
  unfold PullResponse.total Pallet.pullLedgerDiff PayStorage.leafIndices
  simp only [assetValueDecode_encode, hindex, sum_ofNat]
  rw [BitVec.ofNat_add, Fin.sum_univ_def]

section Ledger
variable {c : Crypto} {model : c.Model} {itemHash : c.ItemHash} {p : PayStorage}
  {es : List (Entry c)}

/-- A tree without leaves stands at index zero. -/
theorem ProxyLedger.Appended.leafIndex_empty (hc : c.Lawful)
    (h : Appended model itemHash .genesis p es) (s : Fin 256)
    (hs : (p.shardTree s).leaves = 0) : (p.shardTree s).currentPath.leafIndex.toNat = 0 := by
  obtain ⟨bs, hbs, -, hleaves, -⟩ := h.shard_lists hc s
  have hnil : bs = [] := List.eq_nil_of_length_eq_zero (hleaves ▸ hs)
  have hidle : onShard itemHash s es = [] := by
    have hlen := (Exec.except_mapM_eq_ok.mp hbs).length_eq
    rw [hnil] at hlen
    exact List.eq_nil_of_length_eq_zero hlen
  rw [h.shardTree_idle hidle]
  rfl

/-- Each tree with a leaf counts one less than it holds. -/
theorem ProxyLedger.Appended.leafIndices_add_occupied (hc : c.Lawful)
    (h : Appended model itemHash .genesis p es) :
    p.leafIndices + p.occupied = ∑ s, (p.shardTree s).leaves := by
  have hshard : ∀ s, (p.shardTree s).leaves = (p.shardTree s).currentPath.leafIndex.toNat +
      if (p.shardTree s).leaves ≠ 0 then 1 else 0 := by
    intro s
    by_cases hs : (p.shardTree s).leaves = 0
    · rw [h.leafIndex_empty hc s hs, if_neg (not_not.mpr hs), hs]
    · rw [if_pos hs]
      unfold UtxoMerkleTreePath.leaves at hs ⊢
      by_cases hd : (p.shardTree s).leafDigest.isSome = true
      · rw [if_pos hd]
      · rw [if_neg hd] at hs
        exact absurd rfl hs
  have hoccupied : p.occupied = ∑ s, if (p.shardTree s).leaves ≠ 0 then 1 else 0 := by
    unfold PayStorage.occupied
    rw [Finset.card_filter]
  unfold PayStorage.leafIndices
  rw [hoccupied, ← Finset.sum_add_distrib]
  apply Finset.sum_congr rfl
  intro s _
  exact (hshard s).symm

/-- The entries are counted by the leaves. -/
theorem ProxyLedger.ShardInvariant.ncard_entries (h : ShardInvariant itemHash p) :
    p.entries.ncard = ∑ s, (p.shardTree s).leaves := by
  have hset : p.entries = ↑((Finset.univ.sigma fun s => Finset.range (p.shardTree s).leaves).map
      (Equiv.sigmaEquivProd (Fin 256) ℕ).toEmbedding) := by
    ext ⟨s, i⟩
    have hkey := h.keys s i
    simpa [PayStorage.entries, StorageMap.containsKey] using hkey
  rw [hset, Set.ncard_coe_finset, Finset.card_map, Finset.card_sigma]
  apply Finset.sum_congr rfl
  intro s _
  exact Finset.card_range _

theorem ProxyLedger.ShardInvariant.occupied_eq_zero (h : ShardInvariant itemHash p) :
    p.occupied = 0 ↔ p.entries = ∅ := by
  unfold PayStorage.occupied
  rw [Finset.card_eq_zero, Finset.filter_eq_empty_iff, Set.eq_empty_iff_forall_notMem]
  constructor
  · intro hnone ⟨s, i⟩ hi
    have hlt : i < (p.shardTree s).leaves := (h.keys s i).mp hi
    have hzero : (p.shardTree s).leaves = 0 := not_not.mp (hnone (Finset.mem_univ s))
    omega
  · intro hnone s _ hs
    have hin : (p.shards.get (s, 0)).isSome = true :=
      (h.keys s 0).mpr (Nat.pos_of_ne_zero hs)
    exact hnone (s, 0) hin

end Ledger

theorem PayStorage.occupied_le (p : PayStorage) : p.occupied ≤ 256 := by
  have h : p.occupied ≤ (Finset.univ : Finset (Fin 256)).card := Finset.card_filter_le _ _
  simpa using h

section Runs
variable {R : Runtime} {model : R.crypto.Model} {itemHash : R.crypto.ItemHash} {s₀ s : State R}
  {tr : History R}

/-- The total of a response falls short of the ledger by the number of occupied shards. -/
theorem run_total_add_occupied (hR : R.Lawful) (hm : loadModel R.crypto = .ok model)
    (hk : loadItemHash R.crypto = .ok itemHash) (h₀ : s₀.pay = .genesis)
    (h : Run Move.next Move.Allowed s₀ tr s) (checkpoint : Checkpoint)
    (maxReceivers maxSenders : ℕ) :
    (Pallet.pullLedgerDiff s.pay checkpoint maxReceivers maxSenders).total +
        BitVec.ofNat 128 s.pay.occupied =
      BitVec.ofNat 128 (s.pay.entries.ncard + s.pay.nullifierSetSize) := by
  have hhist := run_shardHistory hR hm hk h₀ h
  have hinv := hhist.appended.invariant hR.crypto hhist.distinct
  have hsum := hhist.appended.leafIndices_add_occupied hR.crypto
  have hreorder : s.pay.leafIndices + s.pay.nullifierSetSize + s.pay.occupied =
      s.pay.leafIndices + s.pay.occupied + s.pay.nullifierSetSize := by
    omega
  rw [pullLedgerDiff_total, hinv.ncard_entries, ← hsum, ← BitVec.ofNat_add, hreorder]

theorem run_total_iff_occupied (hR : R.Lawful) (hm : loadModel R.crypto = .ok model)
    (hk : loadItemHash R.crypto = .ok itemHash) (h₀ : s₀.pay = .genesis)
    (h : Run Move.next Move.Allowed s₀ tr s) (checkpoint : Checkpoint)
    (maxReceivers maxSenders : ℕ) :
    (Pallet.pullLedgerDiff s.pay checkpoint maxReceivers maxSenders).total =
        BitVec.ofNat 128 (s.pay.entries.ncard + s.pay.nullifierSetSize) ↔
      s.pay.occupied = 0 := by
  have hshort := run_total_add_occupied hR hm hk h₀ h checkpoint maxReceivers maxSenders
  have hle := s.pay.occupied_le
  rw [← hshort, BitVec.self_eq_add_right]
  constructor
  · intro hzero
    have hnat := congrArg BitVec.toNat hzero
    rw [BitVec.toNat_ofNat, BitVec.toNat_ofNat] at hnat
    omega
  · intro hzero
    rw [hzero]

/-- The total of a response is the size of the ledger exactly on a ledger without entries. -/
theorem ledgerTotal_iff (hR : R.Lawful) (hm : loadModel R.crypto = .ok model)
    (hk : loadItemHash R.crypto = .ok itemHash) (h₀ : s₀.pay = .genesis)
    (h : Run Move.next Move.Allowed s₀ tr s) (checkpoint : Checkpoint)
    (maxReceivers maxSenders : ℕ) :
    (Pallet.pullLedgerDiff s.pay checkpoint maxReceivers maxSenders).total =
        BitVec.ofNat 128 (s.pay.entries.ncard + s.pay.nullifierSetSize) ↔
      s.pay.entries = ∅ := by
  have hhist := run_shardHistory hR hm hk h₀ h
  have hinv := hhist.appended.invariant hR.crypto hhist.distinct
  rw [run_total_iff_occupied hR hm hk h₀ h, hinv.occupied_eq_zero]

end Runs

section Witness
open Sample

/-- A wallet that has read nothing. -/
def fromStart : Checkpoint := ⟨fun _ => 0, 0⟩

theorem ledgerTotal_iff_sample :
    (Pallet.pullLedgerDiff final.pay fromStart 1 1).total =
        BitVec.ofNat 128 (final.pay.entries.ncard + final.pay.nullifierSetSize) ↔
      final.pay.entries = ∅ :=
  ledgerTotal_iff runtime_lawful rfl rfl rfl run_history fromStart 1 1

/-- One leaf is enough for the total to be too small. -/
theorem ledgerTotal_short : (Pallet.pullLedgerDiff final.pay fromStart 1 1).total ≠
    BitVec.ofNat 128 (final.pay.entries.ncard + final.pay.nullifierSetSize) := by
  have hleaf : decide ((final.pay.shardTree 10).leaves = 0) = false := by decide +kernel
  intro heq
  have hzero := (run_total_iff_occupied runtime_lawful rfl rfl rfl run_history fromStart 1 1).mp heq
  unfold PayStorage.occupied at hzero
  rw [Finset.card_eq_zero, Finset.filter_eq_empty_iff] at hzero
  have hten : (final.pay.shardTree 10).leaves = 0 := not_not.mp (hzero (Finset.mem_univ 10))
  rw [hten] at hleaf
  cases hleaf

end Witness

end ZkNft
