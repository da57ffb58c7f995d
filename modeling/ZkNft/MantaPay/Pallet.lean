import ZkNft.MantaPay.TransferLedger

/-! The dispatchable calls of MantaPay. -/

namespace ZkNft

inductive Origin (R : Runtime) where
  | root
  | signed (who : Signer R)
  | none

/-- The dispatch errors a MantaPay call answers with. -/
inductive DispatchError where
  | badOrigin
  | module (e : Error)
  deriving DecidableEq

def ensureSigned {R : Runtime} : Origin R → Exec DispatchError R.Account
  | .signed who => .ok who.account
  | .root => .err .badOrigin
  | .none => .err .badOrigin

namespace Pallet
variable {R : Runtime}

def ensure (p : Prop) [Decidable p] (e : Error) : Tx (State R) DispatchError PUnit :=
  Tx.read fun _ => .ensure p (.module e)

/-- The ledger an asset type is posted to. -/
def ledgerOf (R : Runtime) : AssetType → TransferLedger R
  | .ft => FTTransferLedger.ledger R
  | .pft => FTTransferLedger.ledger R
  | .nft => NFTTransferLedger.ledger R
  | .sbt => NFTTransferLedger.ledger R

def postTransaction (origin : Option R.Account) (sources sinks : List R.Account)
    (post : TransferPost) (assetType : AssetType) : Tx (State R) DispatchError PUnit := do
  let transferPost ← Tx.read fun _ => .lift
    ((post.tryInto (F := R.crypto.toFields)).mapError fun _ => .module .invalidSerializedForm)
  let event ← Tx.convertErr (fun e => (e.toError R.stackDepth).map .module)
    ((ledgerOf R assetType).post transferPost sources sinks)
  Tx.modify fun s => { s with events := s.events ++ [event.convert origin] }

/-- The numbers of sources, senders, receivers and sinks of a post. -/
def HasShape (post : TransferPost) (sources senders receivers sinks : ℕ) : Prop :=
  post.sources.length = sources ∧ post.senderPosts.length = senders ∧
    post.receiverPosts.length = receivers ∧ post.sinks.length = sinks

instance (post : TransferPost) (a b c d : ℕ) : Decidable (HasShape post a b c d) :=
  inferInstanceAs (Decidable (_ ∧ _ ∧ _ ∧ _))

def toPrivate (origin : Origin R) (assetType : AssetType) (post : TransferPost) :
    Tx (State R) DispatchError PUnit := Tx.transactional do
  let origin ← Tx.read fun _ => ensureSigned origin
  ensure (HasShape post 1 0 1 0) .invalidShape
  ensure (∀ source ∈ post.sources, assetValueDecode source > 0) .zeroTransfer
  postTransaction none [origin] [] post assetType

def toPublic (origin : Origin R) (assetType : AssetType) (post : TransferPost) :
    Tx (State R) DispatchError PUnit := Tx.transactional do
  let origin ← Tx.read fun _ => ensureSigned origin
  ensure (HasShape post 0 2 1 1) .invalidShape
  ensure (∀ sink ∈ post.sinks, assetValueDecode sink > 0) .zeroTransfer
  postTransaction none [] [origin] post assetType

def privateTransfer (origin : Origin R) (assetType : AssetType) (post : TransferPost) :
    Tx (State R) DispatchError PUnit := Tx.transactional do
  let origin ← Tx.read fun _ => ensureSigned origin
  ensure (HasShape post 0 2 2 0) .invalidShape
  postTransaction (some origin) [] [] post assetType

/-- The account of the metadata is read and compared with nothing. -/
def privateTransferAsset (origin : Origin R) (assetId : StandardAssetId) (assetType : AssetType)
    (originZkAddress : Bytes 32) (post : TransferPost) :
    Tx (State R) DispatchError PUnit := Tx.transactional do
  let origin ← Tx.read fun _ => ensureSigned origin
  ensure (HasShape post 0 2 2 0) .invalidShape
  let metadata ← Tx.read fun s =>
    .okOr (s.registry.get assetId) (.module .publicUpdateInvalidMint)
  let zkAddress ← Tx.read fun _ =>
    .okOr metadata.getOriginZkaddress (.module .privateTransferZkAddressNotExist)
  ensure (originZkAddress = zkAddress) .privateTransferZkAddressNotMatch
  let _ ← Tx.read fun _ =>
    .okOr metadata.getOriginAccount (.module .privateTransferAccountNotExist)
  postTransaction (some origin) [] [] post assetType

def publicTransfer (origin : Origin R) (asset : Asset) (sink : R.Account) :
    Tx (State R) DispatchError PUnit := Tx.transactional do
  let origin ← Tx.read fun _ => ensureSigned origin
  let id ← Tx.read fun _ => .okOr (idFromField asset.id) (.module .invalidAssetId)
  let metadata ← Tx.read fun s =>
    .okOr (s.registry.get id) (.module .publicUpdateUnknownAsset)
  if metadata.isFungible then
    let world ← Tx.read fun s => .lift <| Except.mapError (fun e => .module e.toError) <|
      Frame.NativeAndNonNative.transfer R.toFrame s.world id origin sink
        (assetValueDecode asset.value) .keepAlive
    Tx.modify fun s => { s with world, events := s.events ++ [.transfer asset origin sink] }
  else
    let (collectionId, itemId) ← Tx.read fun _ =>
      .okOr metadata.getNonFungibleId (.module .publicUpdateUnknownAsset)
    let owner ← Tx.read fun s =>
      .okOr (Frame.NonFungibleAsset.owner R.toFrame s.world collectionId itemId)
        (.module .publicUpdateUnknownAsset)
    ensure (owner = origin) .publicUpdateInvalidTransfer
    let world ← Tx.read fun s => .lift <| Except.mapError (fun e => .module e.toError) <|
      Frame.NonFungibleAsset.transfer R.toFrame s.world collectionId itemId sink
    Tx.modify fun s => { s with world, events := s.events ++ [.transfer asset origin sink] }

end Pallet

/-- A MantaPay call with its arguments. -/
inductive Call (R : Runtime) where
  | toPrivate (assetType : AssetType) (post : TransferPost)
  | toPublic (assetType : AssetType) (post : TransferPost)
  | privateTransfer (assetType : AssetType) (post : TransferPost)
  | privateTransferAsset (assetId : StandardAssetId) (assetType : AssetType)
      (originZkAddress : Bytes 32) (post : TransferPost)
  | publicTransfer (asset : Asset) (sink : R.Account)

def Call.dispatch {R : Runtime} (origin : Origin R) : Call R → Tx (State R) DispatchError PUnit
  | .toPrivate assetType post => Pallet.toPrivate origin assetType post
  | .toPublic assetType post => Pallet.toPublic origin assetType post
  | .privateTransfer assetType post => Pallet.privateTransfer origin assetType post
  | .privateTransferAsset assetId assetType originZkAddress post =>
    Pallet.privateTransferAsset origin assetId assetType originZkAddress post
  | .publicTransfer asset sink => Pallet.publicTransfer origin asset sink

end ZkNft
