import ZkNft.AssetManager.Sample
import ZkNft.Primitives.Fees

/-! The rates that root sets, and the prices that the trader of XCM messages makes of them. -/

namespace ZkNft

namespace FirstAssetTrader

/-- `floor(units_per_second * weight / WEIGHT_PER_SECOND)`. -/
def exactPrice (rate : BitVec 128) (weight : Weight) : ℕ :=
  rate.toNat * weight.toNat / weightPerSecond

/-- A wrapped number is smaller even after the division, unless the divisor is above the modulus. -/
theorem mod_div_eq_iff {a m d : ℕ} (hd : 0 < d) (hdm : d ≤ m) : a % m / d = a / d ↔ a < m := by
  constructor
  · intro h
    by_contra hlt
    have hfits : a % m + d ≤ a := by
      have hq : 1 ≤ a / m := (Nat.one_le_div_iff (by omega)).mpr (by omega)
      calc a % m + d ≤ a % m + m * (a / m) := by
            have := Nat.le_mul_of_pos_right m hq
            omega
        _ = a := Nat.mod_add_div a m
    have hless : a % m / d < a / d := by
      calc a % m / d < (a % m + d) / d := by
            rw [Nat.add_div_right _ hd]
            exact Nat.lt_succ_self _
        _ ≤ a / d := Nat.div_le_div_right hfits
    omega
  · intro h
    rw [Nat.mod_eq_of_lt h]

section Price
variable {rate : BitVec 128} {weight : Weight}

theorem price_toNat (rate : BitVec 128) (weight : Weight) :
    (price rate weight).toNat = rate.toNat * weight.toNat % 2 ^ 128 / weightPerSecond := by
  have hweight : weight.toNat < 2 ^ 128 := Nat.lt_trans weight.isLt (by decide)
  have hsecond : weightPerSecond < 2 ^ 128 := by decide
  rw [price, BitVec.toNat_udiv, BitVec.toNat_mul, BitVec.toNat_setWidth, BitVec.toNat_ofNat,
    Nat.mod_eq_of_lt hweight, Nat.mod_eq_of_lt hsecond]

theorem price_exact_iff :
    (price rate weight).toNat = exactPrice rate weight ↔ rate.toNat * weight.toNat < 2 ^ 128 := by
  rw [price_toNat, exactPrice]
  exact mod_div_eq_iff (by decide) (by decide)

end Price
end FirstAssetTrader

namespace AssetManager
open FirstAssetTrader

variable {R : Runtime} {s s' : State R} {origin : Origin R} {assetId : StandardAssetId}
  {location : MultiLocation} {rate : BitVec 128} {weight : Weight}

/-- The asset manager as `AssetIdLocationMap` and `UnitsPerSecond`. -/
def market (s : State R) : Market StandardAssetId :=
  ⟨fun location => s.locationAssetId.get (.v1 location), s.unitsPerSecond.get⟩

/-- Root sets any rate, of any registered asset. -/
theorem setUnitsPerSecond_ok : setUnitsPerSecond origin assetId rate s = (.ok ⟨⟩, s') ↔
    origin = .root ∧ s.assetIdLocation.containsKey assetId = true ∧
      s' = { s with
        unitsPerSecond := s.unitsPerSecond.insert assetId rate
        events := s.events ++ [.unitsPerSecondUpdated assetId rate] } := by
  simp only [setUnitsPerSecond, Tx.transactional_run_ok, Tx.read_bind_ok,
    RawOrigin.ensureRoot_eq_ok, Tx.modify_bind_ok, ensure_bind_ok, depositEvent, Tx.modify_ok,
    exists_const]

/-- A purchase with the asset then costs that rate. -/
theorem market_rate (h : setUnitsPerSecond origin assetId rate s = (.ok ⟨⟩, s'))
    (hlocation : s.locationAssetId.get (.v1 location) = some assetId) :
    ((market s').assetId location).bind (market s').unitsPerSecond = some rate := by
  obtain ⟨-, -, rfl⟩ := setUnitsPerSecond_ok.mp h
  simp only [market, hlocation, Option.bind_some, StorageMap.get_insert_self]

/-- After root has set the rate of an asset, a purchase with this asset fails, or takes exactly the
price of the weight. -/
def ChargesExactly (rate : BitVec 128) (weight : Weight) : Prop :=
  ∀ (R : Runtime) (s s' : State R) (origin : Origin R) (assetId : StandardAssetId)
    (location : MultiLocation), setUnitsPerSecond origin assetId rate s = (.ok ⟨⟩, s') →
    s.locationAssetId.get (.v1 location) = some assetId →
    ∀ (P : Type) (X : Assets P), X.Lawful → ∀ (trader : FirstAssetTrader) (payment : P)
      (n : BitVec 128), (X.fungibleAssets payment).head? = some ⟨.concrete location, .fungible n⟩ →
    ∀ (unused : P) (trader' : FirstAssetTrader),
      trader.buyWeight X (market s') weight payment = .ok (unused, trader') →
      ∀ id, X.amount payment id =
        X.amount unused id + if id = .concrete location then exactPrice rate weight else 0

/-- A trader that has the rate in its cache returns exactly the price of the weight that it takes
back. -/
def RefundsExactly (rate : BitVec 128) (weight : Weight) : Prop :=
  ∀ (trader : FirstAssetTrader) (location : MultiLocation) (stored : BitVec 128) (asked : Weight),
    trader.refundCache = some (location, stored, rate) → trader.refundable asked = weight →
    ∃ amount : BitVec 128, (trader.refundWeight asked).1 =
      some ⟨.concrete location, .fungible amount⟩ ∧ amount.toNat = exactPrice rate weight

theorem chargesExactly_of_lt (h : rate.toNat * weight.toNat < 2 ^ 128) :
    ChargesExactly rate weight := by
  intro R s s' origin assetId location hset hlocation P X hX trader payment n hhead unused trader'
    hbuy id
  have hprice := price_exact_iff.mpr h
  have hmarket := market_rate hset hlocation
  obtain ⟨location', n', rate', hhead', hrate', hpaid⟩ := buyWeight_ok.mp hbuy
  rw [hhead] at hhead'
  cases hhead'
  obtain rfl := Option.some.inj (hmarket.symm.trans hrate')
  rcases hpaid with ⟨hfree, rfl, -⟩ | ⟨hne, hsub, -⟩
  · rw [hfree] at hprice
    rw [← hprice]
    simp
  · have hsome := Option.isSome_iff_exists.mpr ⟨unused, hsub⟩
    have hle := (hX.checkedSub_isSome payment _ _ hne).mp hsome
    rw [hX.checkedSub_amount payment _ _ unused hsub id, ← hprice]
    split_ifs with hid
    · rw [hid]
      omega
    · omega

theorem refundsExactly_iff :
    RefundsExactly rate weight ↔ rate.toNat * weight.toNat < 2 ^ 128 := by
  constructor
  · intro h
    have hasked : FirstAssetTrader.refundable ⟨weight, some (.parent, 0, rate)⟩ weight = weight :=
      if_pos (BitVec.le_refl weight)
    obtain ⟨amount, hamount, hexact⟩ := h ⟨weight, some (.parent, 0, rate)⟩ .parent 0 weight rfl
      hasked
    simp only [refundWeight, hasked, Option.some.injEq, MultiAsset.mk.injEq, true_and,
      Fungibility.fungible.injEq] at hamount
    rw [← hamount] at hexact
    exact price_exact_iff.mp hexact
  · intro h trader location stored asked hcache hasked
    refine ⟨price rate weight, ?_, price_exact_iff.mpr h⟩
    simp only [refundWeight, hcache, hasked]

section Token

/-- A token of another chain, registered by root. -/
def registered : State Sample.runtime :=
  Sample.after [Sample.root (.forceRegisterAsset (Sample.chain 2000) (Sample.token 8))]

/-- All that a payment can hold of the token. -/
def fullPurse : Option (MultiLocation × BitVec 128) := some (.sibling 2000, BitVec.allOnes 128)

/-- The token with a rate set by root. -/
def rated (rate : BitVec 128) : State Sample.runtime :=
  { registered with
    unitsPerSecond := registered.unitsPerSecond.insert 8 rate
    events := registered.events ++ [.unitsPerSecondUpdated 8 rate] }

theorem rated_ok (rate : BitVec 128) :
    setUnitsPerSecond .root 8 rate registered = (.ok ⟨⟩, rated rate) :=
  setUnitsPerSecond_ok.mpr ⟨rfl, by decide +kernel, rfl⟩

theorem registered_location :
    registered.locationAssetId.get (.v1 (.sibling 2000)) = some 8 := by decide +kernel

theorem chargesExactly_iff :
    ChargesExactly rate weight ↔ rate.toNat * weight.toNat < 2 ^ 128 := by
  refine ⟨fun h => price_exact_iff.mp ?_, chargesExactly_of_lt⟩
  have hmarket := market_rate (rated_ok rate) registered_location
  have hexact := h Sample.runtime registered (rated rate) .root 8 (.sibling 2000) (rated_ok rate)
    registered_location _ Session.purse Session.purse_lawful .new fullPurse _ rfl
  by_cases hfree : price rate weight = 0
  · have hbuy : FirstAssetTrader.new.buyWeight Session.purse (market (rated rate)) weight
        fullPurse = .ok (fullPurse, .new) :=
      buyWeight_ok.mpr ⟨_, _, rate, rfl, hmarket, .inl ⟨hfree, rfl, rfl⟩⟩
    have hpaid := hexact _ _ hbuy (.concrete (.sibling 2000))
    rw [if_pos rfl] at hpaid
    have hzero : (price rate weight).toNat = 0 := congrArg BitVec.toNat hfree
    omega
  · have hfits : (price rate weight).toNat ≤ (BitVec.allOnes 128).toNat := by
      have hlt := (price rate weight).isLt
      rw [BitVec.toNat_allOnes]
      omega
    have hle : (price rate weight).toNat ≤
        Session.purse.amount fullPurse (.concrete (.sibling 2000)) := by
      rw [fullPurse, Session.purse_amount_some, if_pos rfl]
      exact hfits
    obtain ⟨unused, hsub⟩ := Option.isSome_iff_exists.mp
      ((Session.purse_lawful.checkedSub_isSome _ _ _ hfree).mpr hle)
    have hbuy : FirstAssetTrader.new.buyWeight Session.purse (market (rated rate)) weight
        fullPurse = .ok (unused, _) :=
      buyWeight_ok.mpr ⟨_, _, rate, rfl, hmarket, .inr ⟨hfree, hsub, rfl⟩⟩
    have hpaid := hexact _ _ hbuy (.concrete (.sibling 2000))
    rw [Session.purse_lawful.checkedSub_amount _ _ _ _ hsub, if_pos rfl] at hpaid
    rw [if_pos rfl] at hpaid
    omega

end Token

/-- Exactly the rates and weights whose product fits into 128 bits are charged and refunded
exactly. -/
theorem fees_exact_iff (rate : BitVec 128) (weight : Weight) :
    ChargesExactly rate weight ∧ RefundsExactly rate weight ↔
      rate.toNat * weight.toNat < 2 ^ 128 := by
  rw [chargesExactly_iff, refundsExactly_iff, and_self_iff]

/-- The product is 2 ^ 128, so an expensive weight is free. -/
theorem dear_weight_free :
    setUnitsPerSecond .root 8 (2 ^ 116) registered = (.ok ⟨⟩, rated (2 ^ 116)) ∧
    FirstAssetTrader.new.buyWeight Session.purse (market (rated (2 ^ 116))) 4096
      (some (.sibling 2000, 5000)) = .ok (some (.sibling 2000, 5000), .new) ∧
    exactPrice (2 ^ 116) 4096 = 340282366920938463463374607 ∧
    ¬ ChargesExactly (2 ^ 116) 4096 := by
  refine ⟨rated_ok _, ?_, by decide +kernel, ?_⟩
  · exact buyWeight_ok.mpr ⟨_, _, 2 ^ 116, rfl, market_rate (rated_ok _) registered_location,
      .inl ⟨by decide +kernel, rfl, rfl⟩⟩
  · rw [chargesExactly_iff]
    decide +kernel

end AssetManager
end ZkNft
