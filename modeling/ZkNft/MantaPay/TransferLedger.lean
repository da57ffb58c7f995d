import ZkNft.MantaPay.Ledger

/-! The fungible and the non-fungible transfer ledger, and the order in which `TransferPost::post`
of manta-rs calls them. -/

namespace ZkNft

inductive PreprocessedEvent (A : Type) where
  | toPrivate (asset : Asset) (source : A)
  | privateTransfer
  | toPublic (asset : Asset) (sink : A)

/-- `convert` of a preprocessed event; only a private transfer carries the origin. -/
def PreprocessedEvent.convert {A : Type} (origin : Option A) : PreprocessedEvent A → Event A
  | .toPrivate asset source => .toPrivate asset source
  | .privateTransfer => .privateTransfer origin
  | .toPublic asset sink => .toPublic asset sink

/-- A validated post: the data of the post with the accounts of its public values. -/
structure TransferPostingKey (R : Runtime) where
  authorizationKey : Option R.crypto.Group
  assetId : Option R.crypto.Fp
  sources : List (R.Account × AssetValue)
  senders : List (Config.SenderPost R.crypto.toFields)
  receivers : List (Config.ReceiverPost R.crypto.toFields)
  sinks : List (R.Account × AssetValue)
  proof : R.crypto.Proof

namespace TransferPostingKey
variable {R : Runtime}

def body (key : TransferPostingKey R) : Config.TransferPostBody R.crypto.toFields :=
  ⟨key.assetId, key.sources.map Prod.snd, key.senders, key.receivers, key.sinks.map Prod.snd,
    key.proof⟩

/-- `TransferShape::from_posting_key_ref`. -/
def shape (key : TransferPostingKey R) : Option TransferShape :=
  R.crypto.selectShape key.authorizationKey.isSome key.assetId.isSome key.sources.length
    key.senders.length key.receivers.length key.sinks.length

end TransferPostingKey

/-- The methods in which the two ledgers differ; nullifiers and UTXOs go to the `ProxyLedger`. -/
structure TransferLedger (R : Runtime) where
  checkSourceAccounts : State R → R.crypto.Fp → List (R.Account × AssetValue) →
    Exec (InvalidSourceAccount R) (List (R.Account × AssetValue))
  checkSinkAccounts : State R → R.crypto.Fp → List (R.Account × AssetValue) →
    Exec (InvalidSinkAccount R) (List (R.Account × AssetValue))
  isValid : TransferPostingKey R → Exec (TransferLedgerError R) (PreprocessedEvent R.Account)
  updatePublicBalances : R.crypto.Fp → List (R.Account × AssetValue) →
    List (R.Account × AssetValue) → Tx (State R) (TransferLedgerError R) PUnit

/-- An id is standard if the upper half of its field element is zero. -/
def idFromField (id : Bytes 32) : Option StandardAssetId :=
  if id.toList.drop 16 = List.replicate 16 0 then
    some (BitVec.ofNat 128 (Bytes.ofLE (id.toList.take 16)))
  else none

section Metadata
variable {R : Runtime}

def getMetadata (s : State R) (assetId : R.crypto.Fp) :
    Except R.LedgerError (AssetStorageMetadata R.Account) := do
  let field ← (fpEncode (F := R.crypto.toFields) assetId).mapError fun _ => .encodeError
  let id ← (idFromField field).elim (.error .unknownAsset) .ok
  (s.registry.get id).elim (.error .unknownAsset) .ok

end Metadata

section Balances
variable (R : Runtime)

/-- A public transfer whose failure is not expected. -/
def transferFungible (id : StandardAssetId) (source destination : R.Account)
    (amount : AssetValue) : Tx (State R) (TransferLedgerError R) PUnit := do
  let world ← Tx.read fun s => .expectOk "Metadata get failed"
    (Frame.NativeAndNonNative.transfer R.toFrame s.world id source destination amount .keepAlive)
  Tx.modify fun s => { s with world }

def transferNonFungible (collectionId itemId : StandardAssetId) (destination : R.Account) :
    Tx (State R) (TransferLedgerError R) PUnit := do
  let world ← Tx.read fun s => .expectOk "todo: remove"
    (Frame.NonFungibleAsset.transfer R.toFrame s.world collectionId itemId destination)
  Tx.modify fun s => { s with world }

def forEach {α : Type} (f : α → Tx (State R) (TransferLedgerError R) PUnit) :
    List α → Tx (State R) (TransferLedgerError R) PUnit
  | [] => pure ⟨⟩
  | x :: xs => do
    f x
    forEach f xs

/-- The proof check both ledgers end `is_valid` with. -/
def verify (key : TransferPostingKey R) (verifyingContext : List UInt8)
    (event : PreprocessedEvent R.Account) :
    Exec (TransferLedgerError R) (PreprocessedEvent R.Account) := do
  let context ← .lift ((R.crypto.decodeVerifyingContext verifyingContext).mapError
    .verifyingContextDecodeError)
  let verification ← .lift ((R.crypto.hasValidProof context key.authorizationKey key.body).mapError
    .proofSystemError)
  if verification then .ok event else .err .invalidProof

end Balances

/-- Indexing of a slice. -/
def slice0 {ε α : Type} (xs : List α) : Exec ε α :=
  match xs with
  | x :: _ => .ok x
  | [] => .trap .index

namespace FTTransferLedger
variable (R : Runtime)

def fungibleId (s : State R) (assetId : R.crypto.Fp) {ε : Type} : Exec ε StandardAssetId := do
  let metadata ← .expectOk "Metadata get failed" (getMetadata s assetId)
  .expect "Asset Id get failed" metadata.getFungibleId

def checkSourceAccounts (s : State R) (assetId : R.crypto.Fp)
    (sources : List (R.Account × AssetValue)) :
    Exec (InvalidSourceAccount R) (List (R.Account × AssetValue)) := do
  let id ← fungibleId R s assetId
  .lift <| sources.mapM fun (accountId, withdraw) =>
    match Frame.NativeAndNonNative.canWithdraw R.toFrame s.world id accountId withdraw
      .keepAlive with
    | .ok _ => .ok (accountId, withdraw)
    | .error _ => .error ⟨accountId, assetId, withdraw⟩

def checkSinkAccounts (s : State R) (assetId : R.crypto.Fp)
    (sinks : List (R.Account × AssetValue)) :
    Exec (InvalidSinkAccount R) (List (R.Account × AssetValue)) := do
  let id ← fungibleId R s assetId
  .lift <| sinks.mapM fun (accountId, deposit) =>
    match Frame.NativeAndNonNative.canDeposit R.toFrame s.world id accountId deposit false with
    | .ok _ => .ok (accountId, deposit)
    | .error _ => .error ⟨accountId, assetId, deposit⟩

def isValid (key : TransferPostingKey R) :
    Exec (TransferLedgerError R) (PreprocessedEvent R.Account) := do
  let shape ← .okOr key.shape .invalidTransferShape
  match shape with
  | .toPrivate =>
    match key.assetId with
    | none => .err .unknownAsset
    | some assetId =>
      let assetId ← .lift ((fpEncode (F := R.crypto.toFields) assetId).mapError .fpEncodeError)
      let context ← .okOr (R.crypto.verifyingContext .toPrivate) .checksumError
      let source ← slice0 key.sources
      verify R key context (.toPrivate ⟨assetId, assetValueEncode source.2⟩ source.1)
  | .privateTransfer =>
    let context ← .okOr (R.crypto.verifyingContext .privateTransfer) .checksumError
    verify R key context .privateTransfer
  | .toPublic =>
    match key.assetId with
    | none => .err .unknownAsset
    | some assetId =>
      let assetId ← .lift ((fpEncode (F := R.crypto.toFields) assetId).mapError .fpEncodeError)
      let context ← .okOr (R.crypto.verifyingContext .toPublic) .checksumError
      let sink ← slice0 key.sinks
      verify R key context (.toPublic ⟨assetId, assetValueEncode sink.2⟩ sink.1)

def updatePublicBalances (assetId : R.crypto.Fp) (sources sinks : List (R.Account × AssetValue)) :
    Tx (State R) (TransferLedgerError R) PUnit := do
  let metadata ← Tx.read fun s => .expectOk "Metadata get failed" (getMetadata s assetId)
  let id ← Tx.read fun _ => .expect "Metadata get failed" metadata.getFungibleId
  forEach R (fun (accountId, withdraw) => transferFungible R id accountId R.palletAccount withdraw)
    sources
  forEach R (fun (accountId, deposit) => transferFungible R id R.palletAccount accountId deposit)
    sinks

def ledger : TransferLedger R :=
  { checkSourceAccounts := checkSourceAccounts R
    checkSinkAccounts := checkSinkAccounts R
    isValid := isValid R
    updatePublicBalances := updatePublicBalances R }

end FTTransferLedger

namespace NFTTransferLedger
variable (R : Runtime)

def checkSourceAccounts (_ : State R) (_ : R.crypto.Fp) (sources : List (R.Account × AssetValue)) :
    Exec (InvalidSourceAccount R) (List (R.Account × AssetValue)) :=
  .lift (sources.mapM fun (accountId, withdraw) => .ok (accountId, withdraw))

def checkSinkAccounts (_ : State R) (_ : R.crypto.Fp) (sinks : List (R.Account × AssetValue)) :
    Exec (InvalidSinkAccount R) (List (R.Account × AssetValue)) :=
  .lift (sinks.mapM fun (accountId, deposit) => .ok (accountId, deposit))

def encodedAssetId (key : TransferPostingKey R) : Exec (TransferLedgerError R) (Bytes 32) := do
  let assetId ← .expect "todo: remove" key.assetId
  .expectOk "todo: remove" (fpEncode (F := R.crypto.toFields) assetId)

def isValid (key : TransferPostingKey R) :
    Exec (TransferLedgerError R) (PreprocessedEvent R.Account) := do
  let shape ← .expect "todo remove" key.shape
  let context ← .expect "Checksum did not match." (R.crypto.verifyingContext shape)
  match shape with
  | .toPrivate =>
    let assetId ← encodedAssetId R key
    let source ← slice0 key.sources
    verify R key context (.toPrivate ⟨assetId, assetValueEncode source.2⟩ source.1)
  | .privateTransfer => verify R key context .privateTransfer
  | .toPublic =>
    let assetId ← encodedAssetId R key
    let sink ← slice0 key.sinks
    verify R key context (.toPublic ⟨assetId, assetValueEncode sink.2⟩ sink.1)

/-- The amounts of the public values and the accounts of the sources are not looked at. -/
def updatePublicBalances (assetId : R.crypto.Fp) (sources sinks : List (R.Account × AssetValue)) :
    Tx (State R) (TransferLedgerError R) PUnit := do
  let metadata ← Tx.read fun s => .expectOk "Metadata get failed" (getMetadata s assetId)
  let (collectionId, itemId) ←
    Tx.read fun _ => .expect "Metadata get failed" metadata.getNonFungibleId
  forEach R (fun _ => transferNonFungible R collectionId itemId R.palletAccount) sources
  forEach R (fun (accountId, _) => transferNonFungible R collectionId itemId accountId) sinks

def ledger : TransferLedger R :=
  { checkSourceAccounts := checkSourceAccounts R
    checkSinkAccounts := checkSinkAccounts R
    isValid := isValid R
    updatePublicBalances := updatePublicBalances R }

end NFTTransferLedger

namespace TransferLedger
variable {R : Runtime} (L : TransferLedger R)

/-- `check_public_participants`: an asset id exactly if there are public values, and an account
for each of them. -/
def checkPublicParticipants (s : State R) (body : Config.TransferPostBody R.crypto.toFields)
    (sources sinks : List R.Account) :
    Exec (TransferPostError R) (List (R.Account × AssetValue) × List (R.Account × AssetValue)) := do
  .ensure (body.assetId.isSome ↔ body.sources ≠ [] ∨ body.sinks ≠ []) .invalidShape
  .ensure (sources.length = body.sources.length) .invalidShape
  .ensure (sinks.length = body.sinks.length) .invalidShape
  match body.assetId with
  | none => return ([], [])
  | some assetId =>
    let sources ← (if body.sources = [] then .ok [] else
      (L.checkSourceAccounts s assetId (sources.zip body.sources)).mapErr .invalidSourceAccount)
    let sinks ← (if body.sinks = [] then .ok [] else
      (L.checkSinkAccounts s assetId (sinks.zip body.sinks)).mapErr .invalidSinkAccount)
    return (sources, sinks)

def validateSender (s : State R) (post : Config.SenderPost R.crypto.toFields) :
    Except (SenderPostError SenderLedgerError) (Config.SenderPost R.crypto.toFields) := do
  let output ← (ProxyLedger.hasMatchingUtxoAccumulatorOutput (c := R.crypto) s.pay
    post.utxoAccumulatorOutput).mapError SenderLedgerError.toSenderPostError
  let nullifier ← (ProxyLedger.isUnspent (c := R.crypto) s.pay post.nullifier).mapError
    SenderLedgerError.toSenderPostError
  return ⟨output, nullifier⟩

def validateReceiver (s : State R) (post : Config.ReceiverPost R.crypto.toFields) :
    Except (ReceiverPostError (ReceiverLedgerError R.crypto))
      (Config.ReceiverPost R.crypto.toFields) := do
  let utxo ← (ProxyLedger.isNotRegistered (c := R.crypto) s.pay post.utxo).mapError
    ReceiverLedgerError.toReceiverPostError
  return ⟨utxo, post.note⟩

/-- `TransferPost::validate`: signature, public accounts, duplicates inside the post, then the
ledger's nullifiers and UTXOs, then the proof. -/
def validate (s : State R) (post : Config.TransferPost R.crypto.toFields)
    (sources sinks : List R.Account) :
    Exec (TransferPostError R) (TransferPostingKey R × PreprocessedEvent R.Account) := do
  .ensure (R.crypto.hasValidAuthorizationSignature post) .invalidAuthorizationSignature
  let (sources, sinks) ← checkPublicParticipants L s post.body sources sinks
  .ensure (post.body.senderPosts.Pairwise fun p q =>
    ¬ R.crypto.nullifierRelated p.nullifier q.nullifier) .duplicateSpend
  .ensure (post.body.receiverPosts.Pairwise fun p q =>
    ¬ R.crypto.utxoRelated p.utxo q.utxo) .duplicateMint
  let senders ← .lift ((post.body.senderPosts.mapM (validateSender s)).mapError .sender)
  let receivers ← .lift ((post.body.receiverPosts.mapM (validateReceiver s)).mapError .receiver)
  let key : TransferPostingKey R := ⟨post.authorizationSignature.map (·.authorizationKey),
    post.body.assetId, sources, senders, receivers, sinks, post.body.proof⟩
  let event ← (L.isValid key).mapErr TransferLedgerError.toTransferPostError
  return (key, event)

/-- The end of a post; without an asset id there is no public value to move. -/
def updatePublic (key : TransferPostingKey R) : Tx (State R) (TransferLedgerError R) PUnit :=
  match key.assetId with
  | none => pure ⟨⟩
  | some assetId => L.updatePublicBalances assetId key.sources key.sinks

/-- `TransferPostingKey::post`: spend, register, then move the public values. -/
def postKey (key : TransferPostingKey R) : Tx (State R) (TransferLedgerError R) PUnit := do
  Tx.zoom State.pay (fun s pay => { s with pay }) .senderLedgerError
    (ProxyLedger.spendAll (key.senders.map fun p => (p.utxoAccumulatorOutput, p.nullifier)))
  Tx.zoom State.pay (fun s pay => { s with pay }) .receiverLedgerError
    (ProxyLedger.registerAll (key.receivers.map fun p => (p.utxo, p.note)))
  updatePublic L key

/-- `TransferPost::post`. -/
def post (post : Config.TransferPost R.crypto.toFields) (sources sinks : List R.Account) :
    Tx (State R) (TransferPostError R) (PreprocessedEvent R.Account) := do
  let (key, event) ← Tx.read fun s => validate L s post sources sinks
  Tx.zoom id (fun _ s => s) TransferLedgerError.toTransferPostError (postKey L key)
  return event

end TransferLedger

end ZkNft
