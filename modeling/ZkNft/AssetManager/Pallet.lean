import ZkNft.Lib.Origin
import ZkNft.Lib.StorageMap
import ZkNft.Primitives.Assets
import ZkNft.Primitives.Xcm

/-! The asset manager: the ids of private assets, their locations, and what they are backed by. -/

namespace ZkNft
namespace AssetManager

/-- The runtime of the asset manager: the FRAME pallets, the calls it makes to pallet-assets and
pallet-balances, and its configuration. -/
structure Runtime extends Frame where
  /-- The id is taken in pallet-assets. -/
  assetExists : World → StandardAssetId → Bool
  assetsCreate : World → (who : Account) → StandardAssetId → (admin : Account) →
    (minBalance : Balance) → Except DispatchError World
  assetsSetMetadata : World → (who : Account) → StandardAssetId → (name symbol : List UInt8) →
    (decimals : UInt8) → Except DispatchError World
  assetsForceCreate : World → StandardAssetId → (owner : Account) → (isSufficient : Bool) →
    (minBalance : Balance) → Except DispatchError World
  assetsForceSetMetadata : World → StandardAssetId → (name symbol : List UInt8) →
    (decimals : UInt8) → (isFrozen : Bool) → Except DispatchError World
  assetsMintInto : World → StandardAssetId → Account → Balance → Except DispatchError World
  balancesDepositCreating : World → Account → Balance → World
  /-- The account of the pallet id. -/
  palletAccount : Account
  selfReserve : MultiLocation
  nativeMetadata : FungibleAssetStorageMetadata
  nativeMinBalance : Balance

/-- What the asset manager relies on in pallet-assets. -/
structure Runtime.Lawful (R : Runtime) : Prop where
  create_exists : ∀ w w' who id admin minBalance,
    R.assetsCreate w who id admin minBalance = .ok w' → R.assetExists w id = false ∧
      ∀ j, R.assetExists w' j = true ↔ j = id ∨ R.assetExists w j = true
  forceCreate_exists : ∀ w w' id owner isSufficient minBalance,
    R.assetsForceCreate w id owner isSufficient minBalance = .ok w' →
      R.assetExists w id = false ∧
      ∀ j, R.assetExists w' j = true ↔ j = id ∨ R.assetExists w j = true
  setMetadata_exists : ∀ w w' who id name symbol decimals,
    R.assetsSetMetadata w who id name symbol decimals = .ok w' →
      ∀ j, R.assetExists w' j = R.assetExists w j
  forceSetMetadata_exists : ∀ w w' id name symbol decimals isFrozen,
    R.assetsForceSetMetadata w id name symbol decimals isFrozen = .ok w' →
      ∀ j, R.assetExists w' j = R.assetExists w j

namespace Runtime
variable (R : Runtime)

abbrev Metadata := AssetStorageMetadata R.Account

def nativeAssetLocation : AssetLocation := .v1 R.selfReserve

def nativeAssetMetadata : R.Metadata :=
  .fungible ⟨R.nativeMetadata, R.nativeAssetId, R.nativeMinBalance, true⟩

end Runtime

abbrev AssetCount := BitVec 32

abbrev Origin (R : Runtime) := RawOrigin R.Account

inductive Event (R : Runtime) where
  | assetRegistered (assetId : StandardAssetId) (location : AssetLocation) (metadata : R.Metadata)
  | assetLocationUpdated (assetId : StandardAssetId) (location : AssetLocation)
  | assetMetadataUpdated (assetId : StandardAssetId) (metadata : R.Metadata)
  | unitsPerSecondUpdated (assetId : StandardAssetId) (unitsPerSecond : BitVec 128)
  | assetMinted (assetId : StandardAssetId) (beneficiary : R.Account) (amount : Balance)
  | minXcmFeeUpdated (reserveChain : AssetLocation) (minXcmFee : BitVec 128)

/-- The errors of the pallet. -/
inductive Error where
  | locationAlreadyExists
  | errorCreatingAsset
  | updateNonExistentAsset
  | cannotUpdateNativeAssetMetadata
  | assetAlreadyRegistered
  | mintError
  | updateParaIdError
  deriving DecidableEq

inductive DispatchError (R : Runtime) where
  | badOrigin
  | arithmeticOverflow
  | module (e : Error)
  | other (e : R.DispatchError)

/-- The storage items of the pallet, the public assets and the deposited events. -/
structure State (R : Runtime) where
  assetIdLocation : StorageMap StandardAssetId AssetLocation
  locationAssetId : StorageMap AssetLocation StandardAssetId
  assetIdMetadata : StorageMap StandardAssetId R.Metadata
  registeredAssetId : StorageMap (AssetIdMapping R.Account) StandardAssetId
  nextAssetId : StandardAssetId
  unitsPerSecond : StorageMap StandardAssetId (BitVec 128)
  minXcmFee : StorageMap AssetLocation (BitVec 128)
  /-- The count of associated assets of each para id. -/
  allowedDestParaIds : StorageMap ParaId AssetCount
  world : R.World
  events : List (Event R)

variable {R : Runtime}

/-- `GenesisBuild::build`. -/
def State.genesis (startId : StandardAssetId) (world : R.World) : State R :=
  { assetIdLocation := StorageMap.empty.insert R.nativeAssetId R.nativeAssetLocation
    locationAssetId := StorageMap.empty.insert R.nativeAssetLocation R.nativeAssetId
    assetIdMetadata := StorageMap.empty.insert R.nativeAssetId R.nativeAssetMetadata
    registeredAssetId := .empty
    nextAssetId := startId
    unitsPerSecond := .empty
    minXcmFee := .empty
    allowedDestParaIds := .empty
    world
    events := [] }

abbrev Update (R : Runtime) := Tx (State R) (DispatchError R) PUnit

abbrev ensureSigned (origin : Origin R) : Exec (DispatchError R) R.Account :=
  origin.ensureSigned .badOrigin

/-- `ModifierOrigin`. -/
abbrev ensureRoot (origin : Origin R) : Exec (DispatchError R) PUnit :=
  origin.ensureRoot .badOrigin

def ensure (p : State R → Bool) (e : Error) : Update R :=
  Tx.read fun s => .ensure (p s = true) (.module e)

namespace MantaAssetRegistry
variable (R)

/-- `create_asset` of the asset registry: only a fungible asset is created. -/
def createAsset (w : R.World) (who : R.Account) (assetId : StandardAssetId) (admin : R.Account) :
    R.Metadata → Except R.DispatchError R.World
  | .fungible metaRegistry => do
    let w ← R.assetsCreate w who assetId admin metaRegistry.minBalance
    R.assetsSetMetadata w who assetId metaRegistry.metadata.name metaRegistry.metadata.symbol
      metaRegistry.metadata.decimals
  | .nonFungible _ => .ok w
  | .sbt _ => .ok w

def forceCreateAsset (w : R.World) (assetId : StandardAssetId) :
    R.Metadata → Except R.DispatchError R.World
  | .fungible metaRegistry => do
    let w ← R.assetsForceCreate w assetId R.palletAccount metaRegistry.isSufficient
      metaRegistry.minBalance
    R.assetsForceSetMetadata w assetId metaRegistry.metadata.name metaRegistry.metadata.symbol
      metaRegistry.metadata.decimals metaRegistry.metadata.isFrozen
  | .nonFungible _ => .ok w
  | .sbt _ => .ok w

def forceUpdateMetadata (w : R.World) (assetId : StandardAssetId) :
    R.Metadata → Except R.DispatchError R.World
  | .fungible metaRegistry =>
    R.assetsForceSetMetadata w assetId metaRegistry.metadata.name metaRegistry.metadata.symbol
      metaRegistry.metadata.decimals metaRegistry.metadata.isFrozen
  | .nonFungible _ => .ok w
  | .sbt _ => .ok w

end MantaAssetRegistry

/-- `NativeAndNonNative::deposit_minting_with_check`. -/
def depositMintingWithCheck (w : R.World) (assetId : StandardAssetId) (account : R.Account)
    (amount : Balance) (canIncreaseTotalSupply : Bool) : Except R.LedgerError R.World := do
  let assetId ← Frame.NativeAndNonNative.ensureValid R.toFrame assetId
  if assetId = R.nativeAssetId then
    FungibleLedgerError.fromDeposit (R.native.canDeposit w account amount false)
    return R.balancesDepositCreating w account amount
  else
    FungibleLedgerError.fromDeposit
      ((R.nonNative assetId).canDeposit w account amount canIncreaseTotalSupply)
    (R.assetsMintInto w assetId account amount).mapError .invalidMint

/-- `next_asset_id_and_increment`. -/
def nextAssetIdAndIncrement : Tx (State R) (DispatchError R) StandardAssetId := do
  let id ← Tx.read fun s => .ok s.nextAssetId
  Tx.read fun _ => .ensure (id ≠ BitVec.allOnes 128) .arithmeticOverflow
  Tx.modify fun s => { s with nextAssetId := id + 1 }
  return id

/-- `para_id_from_multilocation`. -/
def paraIdFromMultilocation (location : Option MultiLocation) : Option ParaId :=
  match location.bind MultiLocation.firstInterior with
  | some (.parachain paraId) => some paraId
  | _ => none

/-- `increase_count_of_associated_assets`; the count wraps in a release build. -/
def increaseCountOfAssociatedAssets (paraIds : StorageMap ParaId AssetCount) (paraId : ParaId) :
    StorageMap ParaId AssetCount :=
  paraIds.insert paraId ((paraIds.get paraId).getD 0 + 1)

/-- The step of `update_asset_location` that takes an asset off its old chain. -/
def decreaseCountOfAssociatedAssets (paraIds : StorageMap ParaId AssetCount) (paraId : ParaId) :
    StorageMap ParaId AssetCount :=
  match paraIds.get paraId with
  | some count => if count ≤ 1 then paraIds.remove paraId else paraIds.insert paraId (count - 1)
  | none => paraIds.remove paraId

def depositEvent (e : Event R) : Update R := Tx.modify fun s => { s with events := s.events ++ [e] }

def registerAsset (origin : Origin R) (admin : R.Account) (metadata : R.Metadata) : Update R :=
  Tx.transactional do
    let who ← Tx.read fun _ => ensureSigned origin
    let location := R.nativeAssetLocation
    let assetId ← nextAssetIdAndIncrement
    let world ← Tx.read fun s => .lift <| Except.mapError (fun _ => .module .errorCreatingAsset) <|
      MantaAssetRegistry.createAsset R s.world who assetId admin metadata
    Tx.modify fun s => { s with
      world
      assetIdLocation := s.assetIdLocation.insert assetId location
      assetIdMetadata := s.assetIdMetadata.insert assetId metadata }
    let identifierMapping := AssetIdMapping.ofMetadata metadata
    ensure (fun s => !s.registeredAssetId.containsKey identifierMapping) .errorCreatingAsset
    Tx.modify fun s => { s with
      registeredAssetId := s.registeredAssetId.insert identifierMapping assetId }
    depositEvent (.assetRegistered assetId location metadata)

def forceRegisterAsset (origin : Origin R) (location : AssetLocation) (metadata : R.Metadata) :
    Update R := Tx.transactional do
  Tx.read fun _ => ensureRoot origin
  ensure (fun s => !s.locationAssetId.containsKey location) .locationAlreadyExists
  let assetId ← nextAssetIdAndIncrement
  let world ← Tx.read fun s => .lift <| Except.mapError (fun _ => .module .errorCreatingAsset) <|
    MantaAssetRegistry.forceCreateAsset R s.world assetId metadata
  Tx.modify fun s => { s with
    world
    assetIdLocation := s.assetIdLocation.insert assetId location
    assetIdMetadata := s.assetIdMetadata.insert assetId metadata
    locationAssetId := s.locationAssetId.insert location assetId }
  Tx.modify fun s => { s with
    allowedDestParaIds := (paraIdFromMultilocation location.toMultiLocation?).elim
      s.allowedDestParaIds (increaseCountOfAssociatedAssets s.allowedDestParaIds) }
  depositEvent (.assetRegistered assetId location metadata)

def updateAssetLocation (origin : Origin R) (assetId : StandardAssetId)
    (location : AssetLocation) : Update R := Tx.transactional do
  Tx.read fun _ => ensureRoot origin
  ensure (fun s => s.assetIdLocation.containsKey assetId) .updateNonExistentAsset
  ensure (fun s => !s.locationAssetId.containsKey location) .locationAlreadyExists
  let oldLocation ← Tx.read fun s =>
    .okOr (s.assetIdLocation.get assetId) (.module .updateNonExistentAsset)
  Tx.modify fun s => { s with
    locationAssetId := (s.locationAssetId.remove oldLocation).insert location assetId
    assetIdLocation := s.assetIdLocation.insert assetId location }
  Tx.modify fun s => { s with
    allowedDestParaIds := (paraIdFromMultilocation oldLocation.toMultiLocation?).elim
      s.allowedDestParaIds (decreaseCountOfAssociatedAssets s.allowedDestParaIds) }
  Tx.modify fun s => { s with
    allowedDestParaIds := (paraIdFromMultilocation location.toMultiLocation?).elim
      s.allowedDestParaIds (increaseCountOfAssociatedAssets s.allowedDestParaIds) }
  depositEvent (.assetLocationUpdated assetId location)

def forceUpdateAssetMetadata (origin : Origin R) (assetId : StandardAssetId)
    (metadata : R.Metadata) : Update R := Tx.transactional do
  Tx.read fun _ => ensureRoot origin
  ensure (fun _ => assetId ≠ R.nativeAssetId) .cannotUpdateNativeAssetMetadata
  ensure (fun s => s.assetIdLocation.containsKey assetId) .updateNonExistentAsset
  let world ← Tx.read fun s => .lift <| Except.mapError .other <|
    MantaAssetRegistry.forceUpdateMetadata R s.world assetId metadata
  Tx.modify fun s => { s with
    world
    assetIdMetadata := s.assetIdMetadata.insert assetId metadata }
  depositEvent (.assetMetadataUpdated assetId metadata)

def setUnitsPerSecond (origin : Origin R) (assetId : StandardAssetId)
    (unitsPerSecond : BitVec 128) : Update R := Tx.transactional do
  Tx.read fun _ => ensureRoot origin
  ensure (fun s => s.assetIdLocation.containsKey assetId) .updateNonExistentAsset
  Tx.modify fun s => { s with
    unitsPerSecond := s.unitsPerSecond.insert assetId unitsPerSecond }
  depositEvent (.unitsPerSecondUpdated assetId unitsPerSecond)

def forceMintAsset (origin : Origin R) (assetId : StandardAssetId) (beneficiary : R.Account)
    (amount : Balance) : Update R := Tx.transactional do
  Tx.read fun _ => ensureRoot origin
  ensure (fun s => s.assetIdLocation.containsKey assetId) .updateNonExistentAsset
  let world ← Tx.read fun s => .lift <| Except.mapError (fun _ => .module .mintError) <|
    depositMintingWithCheck s.world assetId beneficiary amount true
  Tx.modify fun s => { s with world }
  depositEvent (.assetMinted assetId beneficiary amount)

def setMinXcmFee (origin : Origin R) (reserveChain : AssetLocation) (minXcmFee : BitVec 128) :
    Update R := Tx.transactional do
  Tx.read fun _ => ensureRoot origin
  Tx.modify fun s => { s with minXcmFee := s.minXcmFee.insert reserveChain minXcmFee }
  depositEvent (.minXcmFeeUpdated reserveChain minXcmFee)

/-- A call with its arguments. -/
inductive Call (R : Runtime) where
  | registerAsset (admin : R.Account) (metadata : R.Metadata)
  | forceRegisterAsset (location : AssetLocation) (metadata : R.Metadata)
  | updateAssetLocation (assetId : StandardAssetId) (location : AssetLocation)
  | forceUpdateAssetMetadata (assetId : StandardAssetId) (metadata : R.Metadata)
  | setUnitsPerSecond (assetId : StandardAssetId) (unitsPerSecond : BitVec 128)
  | forceMintAsset (assetId : StandardAssetId) (beneficiary : R.Account) (amount : Balance)
  | setMinXcmFee (reserveChain : AssetLocation) (minXcmFee : BitVec 128)

def Call.dispatch (origin : Origin R) : Call R → Update R
  | .registerAsset admin metadata => AssetManager.registerAsset origin admin metadata
  | .forceRegisterAsset location metadata =>
    AssetManager.forceRegisterAsset origin location metadata
  | .updateAssetLocation assetId location =>
    AssetManager.updateAssetLocation origin assetId location
  | .forceUpdateAssetMetadata assetId metadata =>
    AssetManager.forceUpdateAssetMetadata origin assetId metadata
  | .setUnitsPerSecond assetId unitsPerSecond =>
    AssetManager.setUnitsPerSecond origin assetId unitsPerSecond
  | .forceMintAsset assetId beneficiary amount =>
    AssetManager.forceMintAsset origin assetId beneficiary amount
  | .setMinXcmFee reserveChain minXcmFee => AssetManager.setMinXcmFee origin reserveChain minXcmFee

/-- `AssetIdLocationConvert::convert_ref`. -/
def convertRef (s : State R) (location : MultiLocation) : Except Unit StandardAssetId :=
  (s.locationAssetId.get (.v1 location)).elim (.error ()) .ok

/-- `AssetIdLocationConvert::reverse_ref`. -/
def reverseRef (s : State R) (assetId : StandardAssetId) : Except Unit MultiLocation :=
  ((s.assetIdLocation.get assetId).bind AssetLocation.toMultiLocation?).elim (.error ()) .ok

/-- `Contains<MultiLocation>`: the destinations that tokens can be sent to. -/
def contains (s : State R) (location : MultiLocation) : Bool :=
  location.parents == 1 && match location.interior.toList with
    | [.accountId32 _ _] => true
    | [.parachain paraId, .accountId32 _ _] => s.allowedDestParaIds.containsKey paraId
    | [.parachain paraId, .accountKey20 _ _] => s.allowedDestParaIds.containsKey paraId
    | _ => false

namespace AllowedDestParaIdsMigration

/-- The step of the migration for one entry of `LocationAssetId`. -/
def countLocation (paraIds : StorageMap ParaId AssetCount) (location : AssetLocation) :
    StorageMap ParaId AssetCount :=
  match paraIdFromMultilocation location.toMultiLocation? with
  | some paraId =>
    if paraId ≠ 2084 then increaseCountOfAssociatedAssets paraIds paraId else paraIds
  | none => paraIds

/-- `on_runtime_upgrade` over the entries of `LocationAssetId` in the order of an iteration, with
the storage version before and after. -/
def onRuntimeUpgrade (storageVersion : BitVec 16) (entries : List (AssetLocation × StandardAssetId))
    (paraIds : StorageMap ParaId AssetCount) : BitVec 16 × StorageMap ParaId AssetCount :=
  if storageVersion < 1 then (1, (entries.map Prod.fst).foldl countLocation paraIds)
  else (storageVersion, paraIds)

end AllowedDestParaIdsMigration
end AssetManager
end ZkNft
