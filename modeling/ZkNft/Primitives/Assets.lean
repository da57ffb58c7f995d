import ZkNft.Lib.Exec
import ZkNft.Lib.Bytes

/-! Asset metadata and the unified fungible and non-fungible ledgers of the primitives crate,
over the FRAME pallets that hold the public assets. -/

namespace ZkNft

abbrev StandardAssetId := BitVec 128

abbrev Balance := BitVec 128

structure FungibleAssetStorageMetadata where
  name : List UInt8
  symbol : List UInt8
  decimals : UInt8
  isFrozen : Bool
  deriving DecidableEq

structure AssetRegistryMetadata where
  metadata : FungibleAssetStorageMetadata
  assetId : StandardAssetId
  minBalance : Balance
  isSufficient : Bool
  deriving DecidableEq

structure NonFungibleAssetStorageMetadata (A : Type) where
  name : List UInt8
  info : List UInt8
  collectionId : StandardAssetId
  itemId : StandardAssetId
  originOwner : A
  originZkaddress : Bytes 32
  deriving DecidableEq

inductive AssetStorageMetadata (A : Type) where
  | fungible (data : AssetRegistryMetadata)
  | nonFungible (data : NonFungibleAssetStorageMetadata A)
  | sbt (data : NonFungibleAssetStorageMetadata A)
  deriving DecidableEq

namespace AssetStorageMetadata
variable {A : Type}

def isFungible : AssetStorageMetadata A → Bool
  | fungible _ => true
  | nonFungible _ => false
  | sbt _ => false

def getFungibleId : AssetStorageMetadata A → Option StandardAssetId
  | fungible data => some data.assetId
  | nonFungible _ => none
  | sbt _ => none

def getNonFungibleId : AssetStorageMetadata A → Option (StandardAssetId × StandardAssetId)
  | fungible _ => none
  | nonFungible data => some (data.collectionId, data.itemId)
  | sbt data => some (data.collectionId, data.itemId)

def getOriginZkaddress : AssetStorageMetadata A → Option (Bytes 32)
  | fungible _ => none
  | nonFungible _ => none
  | sbt data => some data.originZkaddress

def getOriginAccount : AssetStorageMetadata A → Option A
  | fungible _ => none
  | nonFungible _ => none
  | sbt data => some data.originOwner

end AssetStorageMetadata

/-- The identifier of an asset in pallet-assets or pallet-uniques. -/
inductive AssetIdMapping (A : Type) where
  | fungible (assetId : StandardAssetId)
  | nonFungible (collectionId itemId : StandardAssetId)
  | sbt (collectionId itemId : StandardAssetId) (originZkaddress : Bytes 32) (originOwner : A)
  deriving DecidableEq

/-- `From<AssetStorageMetadata>`. -/
def AssetIdMapping.ofMetadata {A : Type} : AssetStorageMetadata A → AssetIdMapping A
  | .fungible data => .fungible data.assetId
  | .nonFungible data => .nonFungible data.collectionId data.itemId
  | .sbt data => .sbt data.collectionId data.itemId data.originZkaddress data.originOwner

inductive ExistenceRequirement where
  | keepAlive
  | allowDeath
  deriving DecidableEq

inductive DepositConsequence where
  | belowMinimum
  | cannotCreate
  | overflow
  | unknownAsset
  | success
  deriving DecidableEq

/-- The errors of the ledgers, over the dispatch errors of the pallets below. -/
inductive FungibleLedgerError (D : Type) where
  | invalidAssetId (id : StandardAssetId)
  | belowMinimum
  | cannotCreate
  | unknownAsset
  | overflow
  | cannotWithdrawMoreThan (amount : Balance)
  | invalidMint (e : D)
  | invalidBurn (e : D)
  | invalidTransfer (e : D)
  | encodeError

def FungibleLedgerError.fromDeposit {D : Type} :
    DepositConsequence → Except (FungibleLedgerError D) Unit
  | .belowMinimum => .error .belowMinimum
  | .cannotCreate => .error .cannotCreate
  | .overflow => .error .overflow
  | .unknownAsset => .error .unknownAsset
  | .success => .ok ()

/-- A FRAME pallet of one fungible token in a state `W`; `alive` says how a transfer is told
to keep the source account. -/
structure Fungible (W A D alive : Type) where
  balance : W → A → Balance
  reducibleBalance : W → A → Bool → Balance
  canDeposit : W → A → Balance → Bool → DepositConsequence
  transfer : W → A → A → Balance → alive → Except D W

/-- The FRAME pallets of a runtime and the constants of its `AssetConfig`. -/
structure Frame where
  Account : Type
  [decAccount : DecidableEq Account]
  /-- The state of pallet-balances, pallet-assets and pallet-uniques. -/
  World : Type
  DispatchError : Type
  native : Fungible World Account DispatchError ExistenceRequirement
  nonNative : StandardAssetId → Fungible World Account DispatchError Bool
  uniquesOwner : World → StandardAssetId → StandardAssetId → Option Account
  /-- `nonfungibles::Inspect::can_transfer`: the item exists and is not frozen. -/
  uniquesCanTransfer : World → StandardAssetId → StandardAssetId → Bool
  uniquesTransfer :
    World → StandardAssetId → StandardAssetId → Account → Except DispatchError World
  nativeAssetId : StandardAssetId
  startNonNativeAssetId : StandardAssetId

attribute [instance] Frame.decAccount

namespace Frame
variable (F : Frame)

abbrev LedgerError := FungibleLedgerError F.DispatchError

namespace NativeAndNonNative

def ensureValid (assetId : StandardAssetId) : Except F.LedgerError StandardAssetId :=
  if assetId ≥ F.startNonNativeAssetId ∨ assetId = F.nativeAssetId then .ok assetId
  else .error (.invalidAssetId assetId)

def canDeposit (w : F.World) (assetId : StandardAssetId) (account : F.Account) (amount : Balance)
    (canIncreaseTotalSupply : Bool) : Except F.LedgerError StandardAssetId := do
  let assetId ← ensureValid F assetId
  FungibleLedgerError.fromDeposit <|
    if assetId = F.nativeAssetId then F.native.canDeposit w account amount false
    else (F.nonNative assetId).canDeposit w account amount canIncreaseTotalSupply
  return assetId

def transfer (w : F.World) (assetId : StandardAssetId) (source destination : F.Account)
    (amount : Balance) (existenceRequirement : ExistenceRequirement) :
    Except F.LedgerError F.World := do
  let assetId ← ensureValid F assetId
  Except.mapError .invalidTransfer <|
    if assetId = F.nativeAssetId then
      F.native.transfer w source destination amount existenceRequirement
    else
      (F.nonNative assetId).transfer w source destination amount
        (match existenceRequirement with
          | .keepAlive => true
          | .allowDeath => false)

def canWithdraw (w : F.World) (assetId : StandardAssetId) (account : F.Account)
    (amount : Balance) (existenceRequirement : ExistenceRequirement) :
    Except F.LedgerError StandardAssetId := do
  let assetId ← ensureValid F assetId
  let keepAlive := match existenceRequirement with
    | .keepAlive => true
    | .allowDeath => false
  let reducibleAmount :=
    if assetId = F.nativeAssetId then F.native.reducibleBalance w account keepAlive
    else (F.nonNative assetId).reducibleBalance w account keepAlive
  if reducibleAmount ≥ amount then .ok assetId
  else .error (.cannotWithdrawMoreThan reducibleAmount)

end NativeAndNonNative

namespace NonFungibleAsset

def owner (w : F.World) (collectionId assetId : StandardAssetId) : Option F.Account :=
  F.uniquesOwner w collectionId assetId

/-- The transfer takes no owner: the item moves from whoever holds it. -/
def transfer (w : F.World) (collectionId assetId : StandardAssetId) (destination : F.Account) :
    Except F.LedgerError F.World :=
  Except.mapError .invalidTransfer (F.uniquesTransfer w collectionId assetId destination)

end NonFungibleAsset
/-- The pallet an asset id of the unified ledger names. -/
def token (id : StandardAssetId) : Fungible F.World F.Account F.DispatchError Bool :=
  if id = F.nativeAssetId then
    { balance := F.native.balance
      reducibleBalance := F.native.reducibleBalance
      canDeposit := F.native.canDeposit
      transfer := fun w a b amount alive =>
        F.native.transfer w a b amount (if alive then .keepAlive else .allowDeath) }
  else F.nonNative id

/-- The ids `ensureValid` lets through. -/
def ValidId (id : StandardAssetId) : Prop := id ≥ F.startNonNativeAssetId ∨ id = F.nativeAssetId

instance (id : StandardAssetId) : Decidable (F.ValidId id) :=
  inferInstanceAs (Decidable (id ≥ F.startNonNativeAssetId ∨ id = F.nativeAssetId))

/-- `amount` of token `id` went from `src` to `dst`, and nothing else moved. -/
structure Moved (w w' : F.World) (id : StandardAssetId) (src dst : F.Account) (amount : Balance) :
    Prop where
  self : src = dst → (F.token id).balance w' src = (F.token id).balance w src
  source : src ≠ dst →
    ((F.token id).balance w' src).toNat + amount.toNat = ((F.token id).balance w src).toNat
  destination : src ≠ dst →
    ((F.token id).balance w' dst).toNat = ((F.token id).balance w dst).toNat + amount.toNat
  other : ∀ j a, j ≠ id ∨ a ≠ src ∧ a ≠ dst → (F.token j).balance w' a = (F.token j).balance w a
  items : ∀ c i, F.uniquesOwner w' c i = F.uniquesOwner w c i

/-- What the ledgers rely on in the FRAME pallets, for a pallet account without locks. -/
structure Lawful (palletAccount : F.Account) : Prop where
  transfer_moved : ∀ w w' id src dst amount,
    (F.token id).transfer w src dst amount true = .ok w' → F.Moved w w' id src dst amount
  /-- What may be withdrawn and deposited can be transferred. -/
  transfer_total : ∀ w id src dst amount,
    amount ≤ (F.token id).reducibleBalance w src true →
    (F.token id).canDeposit w dst amount false = .success →
    ∃ w', (F.token id).transfer w src dst amount true = .ok w'
  transfer_canDeposit : ∀ w w' id src dst amount,
    (F.token id).transfer w src dst amount true = .ok w' → src ≠ dst → amount ≠ 0 →
    (F.token id).canDeposit w dst amount false = .success
  transfer_reducible : ∀ w w' id dst amount,
    (F.token id).transfer w palletAccount dst amount true = .ok w' → palletAccount ≠ dst →
    amount ≠ 0 → amount ≤ (F.token id).reducibleBalance w palletAccount true
  uniquesTransfer_total : ∀ w c i dst,
    (∃ w', F.uniquesTransfer w c i dst = .ok w') ↔ F.uniquesCanTransfer w c i = true
  uniquesTransfer_owner : ∀ w w' c i dst, F.uniquesTransfer w c i dst = .ok w' →
    F.uniquesOwner w' c i = some dst ∧
      ∀ c' i', (c', i') ≠ (c, i) → F.uniquesOwner w' c' i' = F.uniquesOwner w c' i'
  uniquesTransfer_balance : ∀ w w' c i dst, F.uniquesTransfer w c i dst = .ok w' →
    ∀ id a, (F.token id).balance w' a = (F.token id).balance w a
  uniquesCanTransfer_owner : ∀ w c i, F.uniquesCanTransfer w c i = true →
    (F.uniquesOwner w c i).isSome

section Specs
variable {F} {w w' : F.World} {id id' : StandardAssetId} {a b : F.Account} {amount : Balance}

theorem ensureValid_eq_ok :
    NativeAndNonNative.ensureValid F id = .ok id' ↔ id' = id ∧ F.ValidId id := by
  unfold NativeAndNonNative.ensureValid ValidId
  split_ifs with h <;> simp [h, eq_comm]

theorem fromDeposit_eq_ok {D : Type} {x : DepositConsequence} {u : Unit} :
    (FungibleLedgerError.fromDeposit x : Except (FungibleLedgerError D) Unit) = .ok u ↔
      x = .success := by
  cases x <;> simp [FungibleLedgerError.fromDeposit]

/-- Deposits into existing supply are checked by the id's own pallet. -/
theorem canDeposit_eq_ok :
    NativeAndNonNative.canDeposit F w id a amount false = .ok id' ↔
      id' = id ∧ F.ValidId id ∧ (F.token id).canDeposit w a amount false = .success := by
  simp only [NativeAndNonNative.canDeposit, Exec.except_bind_eq_ok, ensureValid_eq_ok, token]
  constructor
  · rintro ⟨_, ⟨rfl, hv⟩, u, hd, hr⟩
    obtain rfl := Except.ok.inj hr
    rw [fromDeposit_eq_ok] at hd
    split_ifs at * <;> exact ⟨rfl, hv, hd⟩
  · rintro ⟨rfl, hv, hd⟩
    refine ⟨_, ⟨rfl, hv⟩, (), fromDeposit_eq_ok.mpr ?_, rfl⟩
    split_ifs at * <;> exact hd

theorem reducibleBalance_token (keepAlive : Bool) :
    (if id = F.nativeAssetId then F.native.reducibleBalance w a keepAlive
      else (F.nonNative id).reducibleBalance w a keepAlive) =
      (F.token id).reducibleBalance w a keepAlive := by
  unfold token
  split_ifs <;> rfl

theorem canWithdraw_eq_ok :
    NativeAndNonNative.canWithdraw F w id a amount .keepAlive = .ok id' ↔
      id' = id ∧ F.ValidId id ∧ amount ≤ (F.token id).reducibleBalance w a true := by
  simp only [NativeAndNonNative.canWithdraw, Exec.except_bind_eq_ok, ensureValid_eq_ok,
    reducibleBalance_token]
  constructor
  · rintro ⟨_, ⟨rfl, hv⟩, h⟩
    split_ifs at h with hle
    exact ⟨(Except.ok.inj h).symm, hv, hle⟩
  · rintro ⟨rfl, hv, h⟩
    exact ⟨_, ⟨rfl, hv⟩, if_pos h⟩

theorem transfer_eq_ok :
    NativeAndNonNative.transfer F w id a b amount .keepAlive = .ok w' ↔
      F.ValidId id ∧ (F.token id).transfer w a b amount true = .ok w' := by
  simp only [NativeAndNonNative.transfer, Exec.except_bind_eq_ok, ensureValid_eq_ok, token]
  constructor
  · rintro ⟨_, ⟨rfl, hv⟩, h⟩
    split_ifs at * <;> exact ⟨hv, Exec.except_mapError_eq_ok.mp h⟩
  · rintro ⟨hv, h⟩
    refine ⟨_, ⟨rfl, hv⟩, Exec.except_mapError_eq_ok.mpr ?_⟩
    split_ifs at * <;> exact h

theorem nonFungible_transfer_eq_ok {c i : StandardAssetId} :
    NonFungibleAsset.transfer F w c i b = .ok w' ↔ F.uniquesTransfer w c i b = .ok w' :=
  Exec.except_mapError_eq_ok

end Specs
end Frame

end ZkNft
