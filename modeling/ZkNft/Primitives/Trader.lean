import Mathlib.Tactic.Common
import ZkNft.Primitives.Xcm
import Mathlib.Data.BitVec

/-! The trader that sells weight to XCM messages for the first fungible asset of their payment. -/

namespace ZkNft

abbrev Weight := BitVec 64

def weightPerSecond : ℕ := 1_000_000_000_000

section Saturating
variable {n : ℕ}

def saturatingAdd (x y : BitVec n) : BitVec n :=
  if x.toNat + y.toNat < 2 ^ n then x + y else BitVec.allOnes n

def saturatingSub (x y : BitVec n) : BitVec n := if y ≤ x then x - y else 0

theorem saturatingAdd_toNat_iff (x y : BitVec n) :
    (saturatingAdd x y).toNat = x.toNat + y.toNat ↔ x.toNat + y.toNat < 2 ^ n := by
  unfold saturatingAdd
  split_ifs with h
  · rw [BitVec.toNat_add, Nat.mod_eq_of_lt h]
    exact iff_of_true rfl h
  · have hlt := (BitVec.allOnes n).isLt
    constructor
    · intro heq
      omega
    · exact fun hlt' => absurd hlt' h

theorem saturatingSub_toNat (x y : BitVec n) :
    (saturatingSub x y).toNat = x.toNat - y.toNat := by
  unfold saturatingSub
  split_ifs with h
  · exact BitVec.toNat_sub_of_le h
  · rw [BitVec.le_def] at h
    simp only [BitVec.ofNat_eq_ofNat, BitVec.toNat_ofNat, Nat.zero_mod]
    omega

end Saturating

inductive XcmError where
  | tooExpensive
  deriving DecidableEq

/-- `AssetIdLocationMap` and `UnitsPerSecond` at one moment. -/
structure Market (A : Type) where
  assetId : MultiLocation → Option A
  unitsPerSecond : A → Option (BitVec 128)

/-- The amount of fungible asset `id` in an asset. -/
def MultiAsset.amountOf (asset : MultiAsset) (id : XcmAssetId) : ℕ :=
  match asset.fungibility with
  | .fungible amount => if asset.id = id then amount.toNat else 0
  | .nonFungible _ => 0

/-- The operations of the executor's `Assets` that the trader uses. -/
structure Assets (P : Type) where
  fungibleAssets : P → List MultiAsset
  checkedSub : P → MultiAsset → Option P

namespace Assets
variable {P : Type} (X : Assets P)

def amount (payment : P) (id : XcmAssetId) : ℕ :=
  ((X.fungibleAssets payment).map fun asset => asset.amountOf id).sum

/-- What the trader relies on: a positive amount is taken off if it is there, and only that. -/
structure Lawful : Prop where
  checkedSub_isSome : ∀ payment id (n : BitVec 128), n ≠ 0 →
    ((X.checkedSub payment ⟨id, .fungible n⟩).isSome = true ↔ n.toNat ≤ X.amount payment id)
  checkedSub_amount : ∀ payment id (n : BitVec 128) unused,
    X.checkedSub payment ⟨id, .fungible n⟩ = some unused → ∀ j,
      X.amount unused j = X.amount payment j - if j = id then n.toNat else 0

end Assets

structure FirstAssetTrader where
  weight : Weight
  refundCache : Option (MultiLocation × BitVec 128 × BitVec 128)
  deriving DecidableEq

namespace FirstAssetTrader

def new : FirstAssetTrader := ⟨0, none⟩

/-- `units_per_second * weight / WEIGHT_PER_SECOND`; the product wraps in a release build. -/
def price (unitsPerSecond : BitVec 128) (weight : Weight) : BitVec 128 :=
  unitsPerSecond * weight.setWidth 128 / BitVec.ofNat 128 weightPerSecond

/-- Take a purchase into the account; the weight goes in once more where the asset is one that can
be refunded. -/
def charge (self : FirstAssetTrader) (weight : Weight) (id : MultiLocation)
    (amount unitsPerSecond : BitVec 128) : FirstAssetTrader :=
  let self := { self with weight := saturatingAdd self.weight weight }
  let newAsset := match self.refundCache with
    | some (prevId, prevAmount, unitsPerSecond) =>
      if prevId = id then some (id, saturatingAdd prevAmount amount, unitsPerSecond) else none
    | none => some (id, amount, unitsPerSecond)
  match newAsset with
  | some newAsset =>
    { weight := saturatingAdd self.weight weight, refundCache := some newAsset }
  | none => self

def buyWeight {A P : Type} (X : Assets P) (M : Market A) (self : FirstAssetTrader)
    (weight : Weight) (payment : P) : Except XcmError (P × FirstAssetTrader) :=
  match (X.fungibleAssets payment).head? with
  | some ⟨.concrete id, .fungible _⟩ =>
    match (M.assetId id).bind M.unitsPerSecond with
    | none => .error .tooExpensive
    | some unitsPerSecond =>
      let amount := price unitsPerSecond weight
      if amount = 0 then .ok (payment, self)
      else match X.checkedSub payment ⟨.concrete id, .fungible amount⟩ with
        | none => .error .tooExpensive
        | some unused => .ok (unused, self.charge weight id amount unitsPerSecond)
  | _ => .error .tooExpensive

/-- `weight.min(self.weight)`. -/
def refundable (self : FirstAssetTrader) (weight : Weight) : Weight :=
  if weight ≤ self.weight then weight else self.weight

def refundWeight (self : FirstAssetTrader) (weight : Weight) :
    Option MultiAsset × FirstAssetTrader :=
  match self.refundCache with
  | some (id, prevAmount, unitsPerSecond) =>
    let weight := self.refundable weight
    let amount := price unitsPerSecond weight
    (some ⟨.concrete id, .fungible amount⟩,
      { weight := self.weight - weight
        refundCache := some (id, saturatingSub prevAmount amount, unitsPerSecond) })
  | none => (none, self)

/-- What `drop` hands to `take_revenue`. -/
def drop (self : FirstAssetTrader) : Option MultiAsset :=
  self.refundCache.map fun (id, amount, _) => ⟨.concrete id, .fungible amount⟩

section Calls
variable {A P : Type} {X : Assets P} {M : Market A} {self trader : FirstAssetTrader}
  {weight : Weight} {payment unused : P} {id : MultiLocation}
  {amount stored unitsPerSecond rate : BitVec 128}

theorem buyWeight_ok : buyWeight X M self weight payment = .ok (unused, trader) ↔
    ∃ id n rate, (X.fungibleAssets payment).head? = some ⟨.concrete id, .fungible n⟩ ∧
      (M.assetId id).bind M.unitsPerSecond = some rate ∧
      (price rate weight = 0 ∧ unused = payment ∧ trader = self ∨
        price rate weight ≠ 0 ∧
          X.checkedSub payment ⟨.concrete id, .fungible (price rate weight)⟩ = some unused ∧
          trader = self.charge weight id (price rate weight) rate) := by
  unfold buyWeight
  constructor
  · intro h
    split at h
    · next id n hhead =>
      split at h
      · cases h
      · next rate hrate =>
        refine ⟨id, n, rate, hhead, hrate, ?_⟩
        simp only at h
        split_ifs at h with hprice
        · cases h
          exact .inl ⟨hprice, rfl, rfl⟩
        · split at h
          · cases h
          · next hsub =>
            cases h
            exact .inr ⟨hprice, hsub, rfl⟩
    · cases h
  · rintro ⟨id, n, rate, hhead, hrate, ⟨hprice, rfl, rfl⟩ | ⟨hprice, hsub, rfl⟩⟩
    · simp only [hhead, hrate, if_pos hprice]
    · simp only [hhead, hrate, if_neg hprice, hsub]

/-- The first purchase opens the cache. -/
theorem charge_cache_of_none (h : self.refundCache = none) :
    (self.charge weight id amount unitsPerSecond).refundCache =
      some (id, amount, unitsPerSecond) := by
  simp only [charge, h]

/-- A purchase in the stored asset adds to the cache, at the old rate. -/
theorem charge_cache_of_same (h : self.refundCache = some (id, stored, rate)) :
    (self.charge weight id amount unitsPerSecond).refundCache =
      some (id, saturatingAdd stored amount, rate) := by
  simp only [charge, h, if_pos]

/-- A purchase in another asset leaves the cache alone. -/
theorem charge_cache_of_other {prevId : MultiLocation} (hne : prevId ≠ id)
    (h : self.refundCache = some (prevId, stored, rate)) :
    (self.charge weight id amount unitsPerSecond).refundCache = some (prevId, stored, rate) := by
  simp only [charge, h, if_neg hne]

theorem refundable_le (self : FirstAssetTrader) (weight : Weight) :
    self.refundable weight ≤ self.weight := by
  unfold refundable
  split_ifs with h
  · exact h
  · exact BitVec.le_refl _

/-- Out of a refund comes less weight, by what was refunded. -/
theorem refundWeight_weight (h : self.refundCache = some (id, stored, rate)) :
    self.weight.toNat - (self.refundWeight weight).2.weight.toNat =
      (self.refundable weight).toNat := by
  have hle := refundable_le self weight
  simp only [refundWeight, h, BitVec.toNat_sub_of_le hle]
  rw [BitVec.le_def] at hle
  omega

end Calls

end FirstAssetTrader

end ZkNft
