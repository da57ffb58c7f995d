import ZkNft.Lib.StorageMap
import ZkNft.MantaPay.Types
import ZkNft.Primitives.Assets

/-! The runtime MantaPay is configured with, and the storage its calls work on. -/

namespace ZkNft

/-- The runtime: FRAME pallets, the manta-rs library, the account derived from the pallet id
and the number of call frames the stack holds. -/
structure Runtime extends Frame where
  crypto : Crypto
  palletAccount : Account
  stackDepth : ℕ

structure Runtime.Lawful (R : Runtime) : Prop where
  frame : R.toFrame.Lawful R.palletAccount
  crypto : R.crypto.Lawful
  stack : 0 < R.stackDepth

/-- An account that signs a call; no key signs for the account of the pallet id. -/
structure Signer (R : Runtime) where
  account : R.Account
  ne_pallet : account ≠ R.palletAccount

/-- The storage items of the pallet. -/
@[ext] structure PayStorage where
  utxoSet : StorageMap Utxo Unit
  shards : StorageMap (Fin 256 × ℕ) (Utxo × FullIncomingNote)
  shardTrees : StorageMap (Fin 256) UtxoMerkleTreePath
  utxoAccumulatorOutputs : StorageMap (Bytes 32) Unit
  nullifierCommitmentSet : StorageMap (Bytes 32) Unit
  nullifierSetInsertionOrder : StorageMap ℕ (Bytes 32 × OutgoingNote)
  nullifierSetSize : ℕ

namespace PayStorage

/-- The storage before the first call. -/
def genesis : PayStorage :=
  { utxoSet := .empty
    shards := .empty
    shardTrees := .empty
    utxoAccumulatorOutputs := .empty
    nullifierCommitmentSet := .empty
    nullifierSetInsertionOrder := .empty
    nullifierSetSize := 0 }

/-- `ShardTrees::get`, with the default of a `ValueQuery`. -/
def shardTree (p : PayStorage) (s : Fin 256) : UtxoMerkleTreePath :=
  (p.shardTrees.get s).getD default

end PayStorage

inductive Event (A : Type) where
  | toPrivate (asset : Asset) (source : A)
  | toPublic (asset : Asset) (sink : A)
  | privateTransfer (origin : Option A)
  | transfer (asset : Asset) (source : A) (sink : A)

/-- The state MantaPay calls read and write: its own storage, the metadata of the asset
manager, the public assets and the deposited events. -/
structure State (R : Runtime) where
  pay : PayStorage
  registry : StorageMap StandardAssetId (AssetStorageMetadata R.Account)
  world : R.World
  events : List (Event R.Account)

end ZkNft
