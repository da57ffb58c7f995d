import ZkNft.Lib.KeyedFold
import ZkNft.MantaPay.Errors

/-! The ledger of nullifiers and UTXOs that both transfer ledgers write to. -/

namespace ZkNft

/-- A UTXO with its note, as a post registers it. -/
abbrev Entry (c : Crypto) := Config.Utxo c.toFields × Config.FullIncomingNote c.toFields

/-- The working copy of a shard's tree inside a batch. -/
structure WorkingTree (c : Crypto) where
  leafDigest : Option c.Fp
  currentPath : Config.CurrentPath c.toFields
  nextRoot : Option c.Fp

namespace ProxyLedger
variable {c : Crypto}

def isUnspent (p : PayStorage) (nullifier : Config.Nullifier c.toFields) :
    Except SenderLedgerError (Config.Nullifier c.toFields) := do
  let commitment ← (fpEncode nullifier.commitment).mapError .fpEncodeError
  if p.nullifierCommitmentSet.containsKey commitment then .error .assetSpent
  else .ok nullifier

def hasMatchingUtxoAccumulatorOutput (p : PayStorage) (output : c.Fp) :
    Except SenderLedgerError c.Fp := do
  let accumulatorOutput ← (fpEncode (F := c.toFields) output).mapError .fpEncodeError
  -- the zero root stands for a sender of value zero, which needs no membership proof
  if accumulatorOutput = Bytes.zero 32 ∨ p.utxoAccumulatorOutputs.containsKey accumulatorOutput
  then .ok output
  else .error .invalidUtxoAccumulatorOutput

/-- The loop of `spend_all`: `i` entries have been written behind `index`. -/
def spendLoop (index : ℕ) :
    ℕ → List (c.Fp × Config.Nullifier c.toFields) → Tx PayStorage SenderLedgerError ℕ
  | i, [] => pure i
  | i, (_, nullifier) :: rest => do
    let commitment ← Tx.read fun _ =>
      .lift ((fpEncode nullifier.commitment).mapError .fpEncodeError)
    Tx.modify fun p =>
      { p with nullifierCommitmentSet := p.nullifierCommitmentSet.insert commitment () }
    let note ← Tx.read fun _ =>
      .lift ((OutgoingNote.tryFrom nullifier.outgoingNote).mapError .outgoingNoteDecodeError)
    Tx.modify fun p =>
      { p with
        nullifierSetInsertionOrder :=
          p.nullifierSetInsertionOrder.insert (index + i) (commitment, note) }
    spendLoop index (i + 1) rest

def spendAll (entries : List (c.Fp × Config.Nullifier c.toFields)) :
    Tx PayStorage SenderLedgerError PUnit := do
  let index ← Tx.read fun p => .ok p.nullifierSetSize
  let i ← spendLoop index 0 entries
  if i ≠ 0 then Tx.modify fun p => { p with nullifierSetSize := index + i }

def isNotRegistered (p : PayStorage) (utxo : Config.Utxo c.toFields) :
    Except (ReceiverLedgerError c) (Config.Utxo c.toFields) := do
  let key ← (Utxo.tryFrom utxo).mapError .utxoDecodeError
  if p.utxoSet.containsKey key then .error .assetRegistered
  else .ok utxo

def loadModel (c : Crypto) : Except (ReceiverLedgerError c) c.Model := do
  let bytes ← c.utxoAccumulatorModel.elim (.error .checksumError) .ok
  (c.decodeModel bytes).mapError .mtParametersDecodeError

def loadItemHash (c : Crypto) : Except (ReceiverLedgerError c) c.ItemHash := do
  let bytes ← c.utxoAccumulatorItemHash.elim (.error .checksumError) .ok
  (c.decodeItemHash bytes).mapError .utxoAccumulatorItemHashDecodeError

section Register
variable (model : c.Model) (itemHash : c.ItemHash)

def shardIndex (utxo : Config.Utxo c.toFields) : Fin 256 := c.treeIndex (c.itemHash itemHash utxo)

/-- `tree_index` of every pair, then the stable `sort_by_key`. -/
def sortedByShard (pairs : List (Entry c)) : List (Fin 256 × Entry c) :=
  (pairs.map fun e => (shardIndex itemHash e.1, e)).insertionSort (·.1 ≤ ·.1)

/-- The grouping fold over the sorted pairs. -/
def shardInsertions (pairs : List (Entry c)) : List (Fin 256 × List (Entry c)) :=
  KeyedFold.runs (sortedByShard itemHash pairs)

/-- The inner loop of `register_all` over the pairs of one shard. -/
def insertLoop (shard : Fin 256) :
    List (Entry c) → WorkingTree c → Tx PayStorage (ReceiverLedgerError c) (WorkingTree c)
  | [], tree => pure tree
  | (utxo, note) :: rest, tree => do
    let (leafDigest, currentPath, root) ← Tx.read fun _ =>
      .okOr (c.insert model tree.leafDigest tree.currentPath (c.itemHash itemHash utxo))
        .merkleTreeCapacityError
    let utxo ← Tx.read fun _ => .lift ((Utxo.tryFrom utxo).mapError .utxoDecodeError)
    Tx.modify fun p => { p with utxoSet := p.utxoSet.insert utxo () }
    let note ← Tx.read fun _ =>
      .lift ((FullIncomingNote.tryFrom note).mapError .fullNoteDecodeError)
    Tx.modify fun p =>
      { p with shards := p.shards.insert (shard, currentPath.leafIndex) (utxo, note) }
    insertLoop shard rest ⟨leafDigest, currentPath, some root⟩

def decodeTree (tree : UtxoMerkleTreePath) : Except (ReceiverLedgerError c) (WorkingTree c) := do
  let currentPath ← tree.currentPath.tryInto.mapError .pathDecodeError
  let leafDigest ← tree.leafDigest.mapM fun x => (fpDecode x.toList).mapError .fpDecodeError
  return ⟨leafDigest, currentPath, none⟩

def encodeTree (tree : WorkingTree c) : Except (ReceiverLedgerError c) UtxoMerkleTreePath := do
  let currentPath ← (CurrentPath.tryFrom tree.currentPath).mapError .pathDecodeError
  let leafDigest ← tree.leafDigest.mapM fun x =>
    (fpEncode (F := c.toFields) x).mapError .fpEncodeError
  return ⟨leafDigest, currentPath⟩

/-- One round of the outer loop of `register_all`: the tree and the root of the shard are
written after all its pairs. -/
def registerShard (shard : Fin 256) (insertions : List (Entry c)) :
    Tx PayStorage (ReceiverLedgerError c) PUnit := do
  let tree ← Tx.read fun p => .lift (decodeTree (p.shardTree shard))
  let tree ← insertLoop model itemHash shard insertions tree
  let stored ← Tx.read fun _ => .lift (encodeTree tree)
  match tree.nextRoot with
  | none => pure ⟨⟩
  | some root =>
    Tx.modify fun p => { p with shardTrees := p.shardTrees.insert shard stored }
    let output ← Tx.read fun _ =>
      .lift ((fpEncode (F := c.toFields) root).mapError .fpEncodeError)
    Tx.modify fun p =>
      { p with utxoAccumulatorOutputs := p.utxoAccumulatorOutputs.insert output () }

def registerShards : List (Fin 256 × List (Entry c)) → Tx PayStorage (ReceiverLedgerError c) PUnit
  | [] => pure ⟨⟩
  | (shard, insertions) :: rest => do
    registerShard model itemHash shard insertions
    registerShards rest

end Register

def registerAll (pairs : List (Entry c)) : Tx PayStorage (ReceiverLedgerError c) PUnit := do
  let model ← Tx.read fun _ => .lift (loadModel c)
  let itemHash ← Tx.read fun _ => .lift (loadItemHash c)
  registerShards model itemHash (shardInsertions itemHash pairs)

end ProxyLedger

end ZkNft
