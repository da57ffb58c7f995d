import ZkNft.AssetManager.Coherence
import ZkNft.AssetManager.Prices

/-! The adapter that deposits and withdraws the assets of XCM messages, and the account that takes
their fees. -/

namespace ZkNft

namespace Frame
variable (F : Frame)

/-- The balance of an account in the token of an asset id. -/
def holding (w : F.World) (id : StandardAssetId) (account : F.Account) : ℕ :=
  ((F.token id).balance w account).toNat

/-- `amount` more of a token on an account, and all other balances as before. -/
def Adds (w w' : F.World) (id : StandardAssetId) (who : F.Account) (amount : ℕ) : Prop :=
  ∀ j x, F.holding w' j x = F.holding w j x + if id = j ∧ who = x then amount else 0

def SameHoldings (w w' : F.World) : Prop := ∀ id x, F.holding w' id x = F.holding w id x

end Frame

namespace AssetManager
open StorageMap

/-- `XcmError::FailedToTransactAsset`. -/
inductive TransactError where
  | failedToTransactAsset (reason : String)
  deriving DecidableEq

/-- What the adapter is configured with, and the calls it makes to pallet-balances and
pallet-assets beside those of the asset manager. -/
structure Adapter (R : Runtime) where
  /-- `AccountIdConverter::convert_ref`. -/
  convertLocation : MultiLocation → Option R.Account
  /-- `MatchesFungibles` for a conversion of locations to asset ids. -/
  matchesFungibles : (MultiLocation → Except Unit StandardAssetId) → MultiAsset →
    Option (StandardAssetId × Balance)
  balancesWithdraw : R.World → (who : R.Account) → Balance → ExistenceRequirement →
    Except R.DispatchError R.World
  assetsBurnFrom : R.World → StandardAssetId → (who : R.Account) → Balance →
    Except R.DispatchError R.World
  /-- `minimum_balance` of the pallets. -/
  minimumBalance : R.World → StandardAssetId → ℕ
  xcmFeesAccount : R.Account

namespace Adapter
variable {R : Runtime} (X : Adapter R)

/-- `NativeAndNonNative::withdraw_burning`. -/
def withdrawBurning (w : R.World) (assetId : StandardAssetId) (who : R.Account) (amount : Balance)
    (existenceRequirement : ExistenceRequirement) : Except R.LedgerError R.World := do
  let assetId ← Frame.NativeAndNonNative.ensureValid R.toFrame assetId
  let assetId ← Frame.NativeAndNonNative.canWithdraw R.toFrame w assetId who amount
    existenceRequirement
  if assetId = R.nativeAssetId then
    (X.balancesWithdraw w who amount existenceRequirement).mapError .invalidBurn
  else (X.assetsBurnFrom w assetId who amount).mapError .invalidBurn

/-- `match_asset_and_location`: an asset at this chain itself is the native one, whatever the
asset manager has there. -/
def matchAssetAndLocation (s : State R) (asset : MultiAsset) (location : MultiLocation) :
    Except TransactError (StandardAssetId × R.Account × Balance) := do
  let receiver ← (X.convertLocation location).elim
    (.error (.failedToTransactAsset "Failed Location to AccountId Conversion")) .ok
  match isNativeConcrete R.selfReserve asset, X.matchesFungibles (convertRef s) asset with
  | some amount, _ => .ok (R.nativeAssetId, receiver, amount)
  | none, some (assetId, amount) => .ok (assetId, receiver, amount)
  | none, none => .error (.failedToTransactAsset "Unknown Asset")

def depositAsset (s : State R) (asset : MultiAsset) (location : MultiLocation) :
    Except TransactError (State R) := do
  let (assetId, who, amount) ← X.matchAssetAndLocation s asset location
  let world ← Except.mapError (fun _ => .failedToTransactAsset "Failed deposit minting") <|
    depositMintingWithCheck s.world assetId who amount true
  return { s with world }

/-- The assets that go into the holding of the message, and the state. -/
def withdrawAsset (s : State R) (asset : MultiAsset) (location : MultiLocation) :
    Except TransactError (MultiAsset × State R) := do
  let (assetId, who, amount) ← X.matchAssetAndLocation s asset location
  let world ← Except.mapError (fun _ => .failedToTransactAsset "Failed Burn") <|
    X.withdrawBurning s.world assetId who amount .allowDeath
  return (asset, { s with world })

/-- `XcmFeesToAccount::take_revenue`, into pallet-assets only; an error is logged. -/
def takeRevenue (s : State R) (revenue : MultiAsset) : State R :=
  match X.matchesFungibles (convertRef s) revenue with
  | some (assetId, amount) =>
    if amount = 0 then s
    else match R.assetsMintInto s.world assetId X.xcmFeesAccount amount with
      | .ok world => { s with world }
      | .error _ => s
  | none => s

/-- A move of the asset manager or of other pallets, or what the executor makes the adapter do. -/
inductive Move (R : Runtime) where
  | registry (m : AssetManager.Move R)
  | depositAsset (asset : MultiAsset) (location : MultiLocation)
  | withdrawAsset (asset : MultiAsset) (location : MultiLocation)
  | takeRevenue (revenue : MultiAsset)

def next (s : State R) : Move R → State R
  | .registry m => m.next s
  | .depositAsset asset location => (X.depositAsset s asset location).toOption.getD s
  | .withdrawAsset asset location => (X.withdrawAsset s asset location).toOption.elim s Prod.snd
  | .takeRevenue revenue => X.takeRevenue s revenue

abbrev Runs (s₀ : State R) (tr : List (State R × Move R)) (s : State R) : Prop :=
  Run X.next (fun _ _ => True) s₀ tr s

section Laws

/-- What an account keeps of a balance; it goes with all of it where it would keep too little. -/
def remainder (minimum balance amount : ℕ) : ℕ :=
  if 0 < amount ∧ balance - amount < minimum then 0 else balance - amount

/-- `amount` less of a token on an account, and all other balances as before. -/
def Takes (w w' : R.World) (id : StandardAssetId) (who : R.Account) (amount : ℕ) : Prop :=
  ∀ j x, R.holding w' j x = if id = j ∧ who = x then
    remainder (X.minimumBalance w id) (R.holding w id who) amount else R.holding w j x

/-- What the adapter relies on in the xcm-builder, in pallet-balances and in pallet-assets. -/
structure Lawful : Prop where
  matches_iff : ∀ convert asset id amount,
    X.matchesFungibles convert asset = some (id, amount) ↔
      ∃ l, asset = ⟨.concrete l, .fungible amount⟩ ∧ convert l = .ok id
  depositCreating_adds : ∀ w who amount, R.native.canDeposit w who amount false = .success →
    R.Adds w (R.balancesDepositCreating w who amount) R.nativeAssetId who amount.toNat
  mintInto_adds : ∀ w w' id who amount, id ≠ R.nativeAssetId →
    R.assetsMintInto w id who amount = .ok w' → R.Adds w w' id who amount.toNat
  /-- Under its id pallet-assets does not hold the native token. -/
  mintInto_native : ∀ w w' who amount,
    R.assetsMintInto w R.nativeAssetId who amount = .ok w' → R.SameHoldings w w'
  withdraw_takes : ∀ w w' who amount, X.balancesWithdraw w who amount .allowDeath = .ok w' →
    X.Takes w w' R.nativeAssetId who amount.toNat
  burnFrom_takes : ∀ w w' id who amount, id ≠ R.nativeAssetId →
    X.assetsBurnFrom w id who amount = .ok w' → X.Takes w w' id who amount.toNat
  create_same : ∀ w w' who id admin minBalance,
    R.assetsCreate w who id admin minBalance = .ok w' → R.SameHoldings w w'
  setMetadata_same : ∀ w w' who id name symbol decimals,
    R.assetsSetMetadata w who id name symbol decimals = .ok w' → R.SameHoldings w w'
  forceCreate_same : ∀ w w' id owner isSufficient minBalance,
    R.assetsForceCreate w id owner isSufficient minBalance = .ok w' → R.SameHoldings w w'
  forceSetMetadata_same : ∀ w w' id name symbol decimals isFrozen,
    R.assetsForceSetMetadata w id name symbol decimals isFrozen = .ok w' → R.SameHoldings w w'

end Laws
end Adapter

/-- The token that an asset of a message at this location stands for. -/
def State.assetAt {R : Runtime} (s : State R) (l : MultiLocation) : Option StandardAssetId :=
  if l = R.selfReserve ∨ l.isHere = true then some R.nativeAssetId
  else s.locationAssetId.get (.v1 l)

namespace Adapter
variable {R : Runtime} (X : Adapter R)

section Calls
variable {X} {s s' : State R} {asset : MultiAsset} {location : MultiLocation}
  {id : StandardAssetId} {who x : R.Account} {amount : Balance} {w w' : R.World}

theorem convertRef_ok {l : MultiLocation} :
    convertRef s l = .ok id ↔ s.locationAssetId.get (.v1 l) = some id := by
  unfold convertRef
  cases s.locationAssetId.get (.v1 l) <;> simp

theorem isNativeConcrete_eq_some {l : MultiLocation} :
    isNativeConcrete l asset = some amount ↔
      ∃ l', asset = ⟨.concrete l', .fungible amount⟩ ∧ (l' = l ∨ l'.isHere = true) := by
  obtain ⟨_ | _, _ | _⟩ := asset <;> simp [isNativeConcrete, and_comm]

variable (hX : X.Lawful)
include hX

theorem matchAssetAndLocation_ok
    (h : X.matchAssetAndLocation s asset location = .ok (id, who, amount)) :
    (∃ l, asset = ⟨.concrete l, .fungible amount⟩ ∧ s.assetAt l = some id) ∧
      X.convertLocation location = some who := by
  obtain ⟨receiver, hreceiver, h⟩ := Exec.except_bind_eq_ok.mp h
  cases hconvert : X.convertLocation location with
  | none =>
    rw [hconvert] at hreceiver
    cases hreceiver
  | some a =>
    rw [hconvert] at hreceiver
    obtain rfl := Except.ok.inj hreceiver
    cases hnative : isNativeConcrete R.selfReserve asset with
    | some n =>
      simp only [hnative, Except.ok.injEq, Prod.mk.injEq] at h
      obtain ⟨rfl, rfl, rfl⟩ := h
      obtain ⟨l, rfl, hl⟩ := isNativeConcrete_eq_some.mp hnative
      exact ⟨⟨l, rfl, if_pos hl⟩, rfl⟩
    | none =>
      cases hmatch : X.matchesFungibles (convertRef s) asset with
      | none =>
        simp only [hnative, hmatch] at h
        cases h
      | some found =>
        simp only [hnative, hmatch, Except.ok.injEq, Prod.mk.injEq] at h
        obtain ⟨rfl, rfl, rfl⟩ := h
        obtain ⟨l, rfl, hl⟩ := (hX.matches_iff _ _ _ _).mp hmatch
        have hforeign : ¬ (l = R.selfReserve ∨ l.isHere = true) := by
          intro hl
          rw [isNativeConcrete_eq_some.mpr ⟨l, rfl, hl⟩] at hnative
          cases hnative
        exact ⟨⟨l, rfl, (if_neg hforeign).trans (convertRef_ok.mp hl)⟩, rfl⟩

theorem depositMintingWithCheck_adds {canIncreaseTotalSupply : Bool}
    (h : depositMintingWithCheck w id who amount canIncreaseTotalSupply = .ok w') :
    R.Adds w w' id who amount.toNat := by
  simp only [depositMintingWithCheck, Exec.except_bind_eq_ok, Frame.ensureValid_eq_ok] at h
  obtain ⟨id', ⟨rfl, -⟩, hmint⟩ := h
  split_ifs at hmint with hnative
  · simp only [Exec.except_bind_eq_ok, Frame.fromDeposit_eq_ok] at hmint
    obtain ⟨_, hdeposit, hw⟩ := hmint
    obtain rfl := Except.ok.inj hw
    rw [hnative]
    exact hX.depositCreating_adds w who amount hdeposit
  · simp only [Exec.except_bind_eq_ok, Exec.except_mapError_eq_ok] at hmint
    obtain ⟨_, -, hw⟩ := hmint
    exact hX.mintInto_adds w w' id' who amount hnative hw

omit hX in
theorem canWithdraw_id {id' : StandardAssetId} {existenceRequirement : ExistenceRequirement}
    (h : Frame.NativeAndNonNative.canWithdraw R.toFrame w id who amount existenceRequirement =
      .ok id') : id' = id := by
  simp only [Frame.NativeAndNonNative.canWithdraw, Exec.except_bind_eq_ok,
    Frame.ensureValid_eq_ok] at h
  obtain ⟨_, ⟨rfl, -⟩, hwithdraw⟩ := h
  split_ifs at hwithdraw
  all_goals exact (Except.ok.inj hwithdraw).symm

theorem withdrawBurning_takes (h : X.withdrawBurning w id who amount .allowDeath = .ok w') :
    X.Takes w w' id who amount.toNat := by
  simp only [withdrawBurning, Exec.except_bind_eq_ok, Frame.ensureValid_eq_ok] at h
  obtain ⟨_, ⟨rfl, -⟩, id', hid, hburn⟩ := h
  obtain rfl := canWithdraw_id hid
  split_ifs at hburn with hnative
  · rw [hnative]
    exact hX.withdraw_takes w w' who amount (Exec.except_mapError_eq_ok.mp hburn)
  · exact hX.burnFrom_takes w w' _ who amount hnative (Exec.except_mapError_eq_ok.mp hburn)

theorem depositAsset_ok (h : X.depositAsset s asset location = .ok s') :
    ∃ l id who amount w, asset = ⟨.concrete l, .fungible amount⟩ ∧ s.assetAt l = some id ∧
      X.convertLocation location = some who ∧ s' = { s with world := w } ∧
      R.Adds s.world w id who amount.toNat := by
  obtain ⟨⟨id, who, amount⟩, hmatch, h⟩ := Exec.except_bind_eq_ok.mp h
  obtain ⟨w, hw, h⟩ := Exec.except_bind_eq_ok.mp h
  obtain ⟨⟨l, hasset, hl⟩, hwho⟩ := matchAssetAndLocation_ok hX hmatch
  have hadds := depositMintingWithCheck_adds hX (Exec.except_mapError_eq_ok.mp hw)
  exact ⟨l, id, who, amount, w, hasset, hl, hwho, (Except.ok.inj h).symm, hadds⟩

theorem withdrawAsset_ok {out : MultiAsset} (h : X.withdrawAsset s asset location = .ok (out, s')) :
    ∃ l id who amount w, asset = ⟨.concrete l, .fungible amount⟩ ∧ s.assetAt l = some id ∧
      X.convertLocation location = some who ∧ s' = { s with world := w } ∧
      X.Takes s.world w id who amount.toNat := by
  obtain ⟨⟨id, who, amount⟩, hmatch, h⟩ := Exec.except_bind_eq_ok.mp h
  obtain ⟨w, hw, h⟩ := Exec.except_bind_eq_ok.mp h
  obtain ⟨⟨l, hasset, hl⟩, hwho⟩ := matchAssetAndLocation_ok hX hmatch
  have htakes := withdrawBurning_takes hX (Exec.except_mapError_eq_ok.mp hw)
  exact ⟨l, id, who, amount, w, hasset, hl, hwho, (Prod.mk.inj (Except.ok.inj h)).2.symm, htakes⟩

/-- Revenue is taken, or the state stays. -/
theorem takeRevenue_cases (s : State R) (revenue : MultiAsset) :
    (∃ l id amount w, revenue = ⟨.concrete l, .fungible amount⟩ ∧
      s.locationAssetId.get (.v1 l) = some id ∧
      R.assetsMintInto s.world id X.xcmFeesAccount amount = .ok w ∧
      X.takeRevenue s revenue = { s with world := w }) ∨
    X.takeRevenue s revenue = s ∧ ∀ l id amount, revenue = ⟨.concrete l, .fungible amount⟩ →
      s.locationAssetId.get (.v1 l) = some id → amount = 0 ∨
        ∀ w, R.assetsMintInto s.world id X.xcmFeesAccount amount ≠ .ok w := by
  unfold takeRevenue
  cases hmatch : X.matchesFungibles (convertRef s) revenue with
  | none =>
    refine .inr ⟨rfl, ?_⟩
    rintro l id amount rfl hl
    rw [(hX.matches_iff _ _ _ _).mpr ⟨l, rfl, convertRef_ok.mpr hl⟩] at hmatch
    cases hmatch
  | some found =>
    obtain ⟨id, amount⟩ := found
    obtain ⟨l, rfl, hl⟩ := (hX.matches_iff _ _ _ _).mp hmatch
    have hl := convertRef_ok.mp hl
    have hsame : ∀ l' id' amount',
        (⟨.concrete l, .fungible amount⟩ : MultiAsset) = ⟨.concrete l', .fungible amount'⟩ →
        s.locationAssetId.get (.v1 l') = some id' → id' = id ∧ amount' = amount := by
      intro l' id' amount' hasset hl'
      simp only [MultiAsset.mk.injEq, XcmAssetId.concrete.injEq, Fungibility.fungible.injEq]
        at hasset
      obtain ⟨rfl, rfl⟩ := hasset
      exact ⟨Option.some.inj (hl'.symm.trans hl), rfl⟩
    dsimp only
    split_ifs with hzero
    · refine .inr ⟨rfl, ?_⟩
      intro l' id' amount' hasset hl'
      obtain ⟨-, rfl⟩ := hsame l' id' amount' hasset hl'
      exact .inl hzero
    · cases hmint : R.assetsMintInto s.world id X.xcmFeesAccount amount with
      | ok w => exact .inl ⟨l, id, amount, w, rfl, hl, hmint, rfl⟩
      | error e =>
        refine .inr ⟨rfl, ?_⟩
        intro l' id' amount' hasset hl'
        obtain ⟨rfl, rfl⟩ := hsame l' id' amount' hasset hl'
        refine .inr ?_
        intro w hw
        rw [hmint] at hw
        cases hw

theorem createAsset_same {admin : R.Account} {metadata : R.Metadata}
    (h : MantaAssetRegistry.createAsset R w who id admin metadata = .ok w') :
    R.SameHoldings w w' := by
  cases metadata with
  | fungible data =>
    obtain ⟨w₁, hcreate, hset⟩ := Exec.except_bind_eq_ok.mp h
    intro t x
    rw [hX.setMetadata_same _ _ _ _ _ _ _ hset, hX.create_same _ _ _ _ _ _ hcreate]
  | nonFungible | sbt =>
    obtain rfl := Except.ok.inj h
    exact fun _ _ => rfl

theorem forceUpdateMetadata_same {metadata : R.Metadata}
    (h : MantaAssetRegistry.forceUpdateMetadata R w id metadata = .ok w') :
    R.SameHoldings w w' := by
  cases metadata with
  | fungible data => exact hX.forceSetMetadata_same _ _ _ _ _ _ _ h
  | nonFungible | sbt =>
    obtain rfl := Except.ok.inj h
    exact fun _ _ => rfl

theorem forceCreateAsset_same {metadata : R.Metadata}
    (h : MantaAssetRegistry.forceCreateAsset R w id metadata = .ok w') : R.SameHoldings w w' := by
  cases metadata with
  | fungible data =>
    obtain ⟨w₁, hcreate, hset⟩ := Exec.except_bind_eq_ok.mp h
    intro t x
    rw [hX.forceSetMetadata_same _ _ _ _ _ _ _ hset, hX.forceCreate_same _ _ _ _ _ _ hcreate]
  | nonFungible | sbt =>
    obtain rfl := Except.ok.inj h
    exact fun _ _ => rfl

theorem forceMintAsset_adds {origin : Origin R}
    (h : forceMintAsset origin id who amount s = (.ok ⟨⟩, s')) :
    R.Adds s.world s'.world id who amount.toNat := by
  simp only [forceMintAsset, Tx.transactional_run_ok, Tx.read_bind_ok, RawOrigin.ensureRoot_eq_ok,
    Tx.modify_bind_ok, ensure_bind_ok, depositEvent, Tx.modify_ok, Exec.lift_eq_ok,
    Exec.except_mapError_eq_ok] at h
  obtain ⟨-, -, -, w, hw, rfl⟩ := h
  exact depositMintingWithCheck_adds hX hw

/-- Of the calls of the asset manager only a forced mint changes balances. -/
theorem dispatch_same {origin : Origin R} {call : Call R}
    (hmint : ∀ id who amount, call ≠ .forceMintAsset id who amount)
    (h : call.dispatch origin s = (.ok ⟨⟩, s')) : R.SameHoldings s.world s'.world := by
  cases call with
  | registerAsset admin metadata =>
    obtain ⟨_, w, -, -, hw, -, rfl⟩ := registerAsset_ok.mp h
    exact createAsset_same hX hw
  | forceRegisterAsset l metadata =>
    obtain ⟨w, -, -, -, hw, rfl⟩ := forceRegisterAsset_ok.mp h
    exact forceCreateAsset_same hX hw
  | updateAssetLocation a l =>
    obtain ⟨_, -, -, -, rfl⟩ := updateAssetLocation_ok.mp h
    exact fun _ _ => rfl
  | forceUpdateAssetMetadata a metadata =>
    obtain ⟨w, -, -, -, hw, rfl⟩ := forceUpdateAssetMetadata_ok.mp h
    exact forceUpdateMetadata_same hX hw
  | setUnitsPerSecond a rate =>
    obtain ⟨-, -, rfl⟩ := setUnitsPerSecond_ok.mp h
    exact fun _ _ => rfl
  | forceMintAsset a x v => exact absurd rfl (hmint a x v)
  | setMinXcmFee l fee =>
    simp only [Call.dispatch, setMinXcmFee, Tx.transactional_run_ok, Tx.read_bind_ok,
      Tx.modify_bind_ok, depositEvent, Tx.modify_ok] at h
    obtain ⟨_, -, rfl⟩ := h
    exact fun _ _ => rfl

end Calls

end Adapter
end AssetManager
end ZkNft
