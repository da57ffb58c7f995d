import ZkNft.Lib.Bytes

/-! The manta-rs data types the pallet is configured with, and the code of that library
that the pallet calls, as one parameter. -/

namespace ZkNft

/-- `to_vec` and `try_from` of an algebraic type; callers drop the decoding error. -/
structure Codec (α : Type) where
  toVec : α → List UInt8
  tryFrom : List UInt8 → Option α

/-- The field, curve and proof types. -/
structure Fields where
  Fp : Type
  Scalar : Type
  Group : Type
  Proof : Type
  fp : Codec Fp
  scalar : Codec Scalar
  group : Codec Group
  proof : Codec Proof

abbrev AssetValue := BitVec 128

namespace Config

structure Asset (F : Fields) where
  id : F.Fp
  value : AssetValue

structure Utxo (F : Fields) where
  isTransparent : Bool
  publicAsset : Asset F
  commitment : F.Fp

structure OutgoingNote (F : Fields) where
  ephemeralPublicKey : F.Group
  ciphertext : Bytes 64

structure Nullifier (F : Fields) where
  commitment : F.Fp
  outgoingNote : OutgoingNote F

/-- A hybrid ciphertext over one duplex block of three field elements. -/
structure IncomingNote (F : Fields) where
  ephemeralPublicKey : F.Group
  tag : F.Fp
  message : F.Fp × F.Fp × F.Fp

structure LightIncomingNote (F : Fields) where
  ephemeralPublicKey : F.Group
  ciphertext : Bytes 96

structure FullIncomingNote (F : Fields) where
  addressPartition : UInt8
  incomingNote : IncomingNote F
  lightIncomingNote : LightIncomingNote F

structure SenderPost (F : Fields) where
  utxoAccumulatorOutput : F.Fp
  nullifier : Nullifier F

structure ReceiverPost (F : Fields) where
  utxo : Utxo F
  note : FullIncomingNote F

structure AuthorizationSignature (F : Fields) where
  authorizationKey : F.Group
  scalar : F.Scalar
  noncePoint : F.Group

structure TransferPostBody (F : Fields) where
  assetId : Option F.Fp
  sources : List AssetValue
  senderPosts : List (SenderPost F)
  receiverPosts : List (ReceiverPost F)
  sinks : List AssetValue
  proof : F.Proof

structure TransferPost (F : Fields) where
  authorizationSignature : Option (AuthorizationSignature F)
  body : TransferPostBody F

/-- The frontier of a shard's tree; the index is a `usize`. -/
structure CurrentPath (F : Fields) where
  siblingDigest : F.Fp
  leafIndex : ℕ
  innerPath : List F.Fp

end Config

inductive TransferShape where
  | toPrivate
  | privateTransfer
  | toPublic
  deriving DecidableEq

/-- The manta-rs code behind the pallet. -/
structure Crypto extends Fields where
  Model : Type
  ItemHash : Type
  VerifyingContext : Type
  MTParametersError : Type
  UtxoItemHashError : Type
  VerifyingContextError : Type
  ProofSystemError : Type
  /-- The embedded parameter files; `none` if the checksum does not match. -/
  utxoAccumulatorModel : Option (List UInt8)
  utxoAccumulatorItemHash : Option (List UInt8)
  verifyingContext : TransferShape → Option (List UInt8)
  decodeModel : List UInt8 → Except MTParametersError Model
  decodeItemHash : List UInt8 → Except UtxoItemHashError ItemHash
  decodeVerifyingContext : List UInt8 → Except VerifyingContextError VerifyingContext
  /-- `Utxo::item_hash`. -/
  itemHash : ItemHash → Config.Utxo toFields → Fp
  /-- `MerkleTreeConfiguration::tree_index`. -/
  treeIndex : Fp → Fin 256
  /-- `merkle_tree::single_path::raw::insert` on leaf digest, path and item: the new leaf
  digest and path, and the new root. -/
  insert : Model → Option Fp → Config.CurrentPath toFields → Fp →
    Option (Option Fp × Config.CurrentPath toFields × Fp)
  /-- `has_valid_authorization_signature` under the loaded transfer parameters. -/
  hasValidAuthorizationSignature : Config.TransferPost toFields → Bool
  nullifierRelated : Config.Nullifier toFields → Config.Nullifier toFields → Bool
  utxoRelated : Config.Utxo toFields → Config.Utxo toFields → Bool
  /-- `TransferShape::select` on the presence of an authorization key and of an asset id, and
  on the numbers of sources, senders, receivers and sinks. -/
  selectShape : Bool → Bool → ℕ → ℕ → ℕ → ℕ → Option TransferShape
  /-- `has_valid_proof` of a posting key. -/
  hasValidProof : VerifyingContext → Option Group → Config.TransferPostBody toFields →
    Except ProofSystemError Bool

/-- What the pallet relies on in manta-rs. -/
structure Crypto.Lawful (c : Crypto) : Prop where
  fp_length : ∀ x, (c.fp.toVec x).length = 32
  fp_decode : ∀ x, c.fp.tryFrom (c.fp.toVec x) = some x
  fp_zero : (c.fp.tryFrom (Bytes.zero 32).toList).isSome
  group_length : ∀ x, (c.group.toVec x).length = 32
  group_decode : ∀ x, c.group.tryFrom (c.group.toVec x) = some x
  model_loads : ∃ b m, c.utxoAccumulatorModel = some b ∧ c.decodeModel b = .ok m
  itemHash_loads : ∃ b k, c.utxoAccumulatorItemHash = some b ∧ c.decodeItemHash b = .ok k
  verifyingContext_loads :
    ∀ s, ∃ b v, c.verifyingContext s = some b ∧ c.decodeVerifyingContext b = .ok v
  /-- A new leaf goes to index `0` of an empty tree, else to the next index. -/
  insert_index : ∀ m d p x d' p' r, c.insert m d p x = some (d', p', r) →
    d'.isSome ∧ p'.leafIndex = (if d.isSome then p.leafIndex + 1 else 0)
  /-- The capacity of a tree fits the stored index. -/
  insert_capacity : ∀ m d p x d' p' r, c.insert m d p x = some (d', p', r) →
    p'.leafIndex < 2 ^ 32
  /-- A signature is there exactly if the post spends. -/
  authorization_iff : ∀ p, c.hasValidAuthorizationSignature p →
    (p.authorizationSignature.isSome ↔ p.body.senderPosts ≠ [])
  nullifier_related : ∀ n n', n.commitment = n'.commitment → c.nullifierRelated n n'
  utxo_related : ∀ u, c.utxoRelated u u
  /-- The three canonical shapes. -/
  shape_toPrivate : c.selectShape false true 1 0 1 0 = some .toPrivate
  shape_privateTransfer : c.selectShape true false 0 2 2 0 = some .privateTransfer
  shape_toPublic : c.selectShape true true 0 2 1 1 = some .toPublic

end ZkNft
