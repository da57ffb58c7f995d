import ZkNft.AssetManager.Effects
import ZkNft.Primitives.InMemory

/-! A runtime of the asset manager in memory, with the constants of Dolphin. -/

namespace ZkNft
namespace AssetManager
namespace Sample

/-- The public assets with the ids that pallet-assets has handed out. -/
structure World where
  holdings : Holdings ℕ
  assets : List StandardAssetId

inductive PalletError where
  | transfer (e : TransferError)
  | inUse
  | unknown
  | overflow
  deriving DecidableEq

def onHoldings (w : World) (x : Except TransferError (Holdings ℕ)) : Except PalletError World :=
  (x.map fun holdings => { w with holdings }).mapError .transfer

def fungible {alive : Type} (f : Fungible (Holdings ℕ) ℕ TransferError alive) :
    Fungible World ℕ PalletError alive :=
  { balance := fun w => f.balance w.holdings
    reducibleBalance := fun w => f.reducibleBalance w.holdings
    canDeposit := fun w => f.canDeposit w.holdings
    transfer := fun w a b amount alive => onHoldings w (f.transfer w.holdings a b amount alive) }

def create (w : World) (id : StandardAssetId) : Except PalletError World :=
  if id ∈ w.assets then .error .inUse else .ok { w with assets := id :: w.assets }

def setMetadata (w : World) (id : StandardAssetId) : Except PalletError World :=
  if id ∈ w.assets then .ok w else .error .unknown

/-- `amount` more of token `id` on `account`. -/
def mint (w : World) (id : StandardAssetId) (account : ℕ) (amount : Balance) : World :=
  { w with
    holdings := { w.holdings with
      balance := fun j a => if j = id ∧ a = account then w.holdings.balance j a + amount
        else w.holdings.balance j a } }

def memory : Frame := Holdings.frame ℕ 1 1 8

def runtime : Runtime :=
  { Account := ℕ
    World
    DispatchError := PalletError
    native := fungible memory.native
    nonNative := fun id => fungible (memory.nonNative id)
    uniquesOwner := fun w => w.holdings.owner
    uniquesCanTransfer := fun w => w.holdings.canTransfer
    uniquesTransfer := fun w c i dst => onHoldings w (w.holdings.transferItem c i dst)
    nativeAssetId := 1
    startNonNativeAssetId := 8
    assetExists := fun w id => decide (id ∈ w.assets)
    assetsCreate := fun w _ id _ _ => create w id
    assetsSetMetadata := fun w _ id _ _ _ => setMetadata w id
    assetsForceCreate := fun w id _ _ _ => create w id
    assetsForceSetMetadata := fun w id _ _ _ _ => setMetadata w id
    assetsMintInto := fun w id account amount =>
      if 2 ^ 128 ≤ (w.holdings.balance id account).toNat + amount.toNat then .error .overflow
      else .ok (mint w id account amount)
    balancesDepositCreating := fun w account amount => mint w 1 account amount
    palletAccount := (0 : ℕ)
    selfReserve := .sibling 2084
    nativeMetadata := ⟨"Dolphin".toUTF8.toList, "DOL".toUTF8.toList, 18, false⟩
    nativeMinBalance := 1 }

theorem create_exists {w w' : World} {id : StandardAssetId} (h : create w id = .ok w') :
    runtime.assetExists w id = false ∧
      ∀ j, runtime.assetExists w' j = true ↔ j = id ∨ runtime.assetExists w j = true := by
  unfold create at h
  split_ifs at h with hin
  obtain rfl := Except.ok.inj h
  constructor
  · exact decide_eq_false hin
  · intro j
    simp [runtime]

theorem setMetadata_exists {w w' : World} {id : StandardAssetId} (h : setMetadata w id = .ok w')
    (j : StandardAssetId) : runtime.assetExists w' j = runtime.assetExists w j := by
  unfold setMetadata at h
  split_ifs at h with hin
  obtain rfl := Except.ok.inj h
  rfl

theorem runtime_lawful : runtime.Lawful where
  create_exists _ _ _ _ _ _ h := create_exists h
  forceCreate_exists _ _ _ _ _ _ h := create_exists h
  setMetadata_exists _ _ _ _ _ _ _ h := setMetadata_exists h
  forceSetMetadata_exists _ _ _ _ _ _ _ h := setMetadata_exists h

def start : State runtime := .genesis 8 ⟨⟨fun _ _ => 0, fun _ _ => none, fun _ _ => false⟩, []⟩

def token (assetId : StandardAssetId) : runtime.Metadata :=
  .fungible ⟨⟨[], [], 12, false⟩, assetId, 1, true⟩

def item (collectionId itemId : StandardAssetId) : NonFungibleAssetStorageMetadata ℕ :=
  ⟨[], [], collectionId, itemId, (1 : ℕ), Bytes.zero 32⟩

def user (n : ℕ) (c : Call runtime) : Move runtime := .call (.signed (n : ℕ)) c

def root (c : Call runtime) : Move runtime := .call .root c

def chain (id : ParaId) : AssetLocation := .v1 (.sibling id)

/-- The state after a list of moves. -/
def after (ms : List (Move runtime)) : State runtime := ms.foldl Move.next start

theorem runs (ms : List (Move runtime)) : Runs start (trace Move.next start ms) (after ms) :=
  Run.play fun _ _ => trivial

theorem reachable (ms : List (Move runtime)) : Reachable 8 (after ms) :=
  ⟨_, _, by decide, runs ms⟩

end Sample
end AssetManager
end ZkNft
