import ZkNft.Lib.Run
import ZkNft.Primitives.Trader

/-! The trader of a message with an account beside it: what the message bought, what was taken from
its payments, and what it got back. -/

namespace ZkNft

structure Session where
  trader : FirstAssetTrader
  /-- The asset of the first successful purchase, whether it took a payment or was free. -/
  feeAsset : Option XcmAssetId
  bought : ℕ
  refunded : ℕ
  taken : XcmAssetId → ℕ
  returned : XcmAssetId → ℕ

namespace Session

def new : Session := ⟨.new, none, 0, 0, fun _ => 0, fun _ => 0⟩

inductive Move (A P : Type) where
  | buyWeight (market : Market A) (weight : Weight) (payment : P)
  | refundWeight (weight : Weight)

variable {A P : Type}

/-- The asset a purchase is made in: the first fungible one of its payment. -/
def purchaseAsset (X : Assets P) (payment : P) : Option XcmAssetId :=
  (X.fungibleAssets payment).head?.map MultiAsset.id

def next (X : Assets P) (s : Session) : Move A P → Session
  | .buyWeight market weight payment =>
    match s.trader.buyWeight X market weight payment with
    | .error _ => s
    | .ok (unused, trader) =>
      { s with
        trader
        feeAsset := s.feeAsset.or (purchaseAsset X payment)
        bought := s.bought + weight.toNat
        taken := fun id => s.taken id + (X.amount payment id - X.amount unused id) }
  | .refundWeight weight =>
    let refund := s.trader.refundWeight weight
    { s with
      trader := refund.2
      refunded := s.refunded + (s.trader.weight.toNat - refund.2.weight.toNat)
      returned := fun id => s.returned id + refund.1.elim 0 fun asset => asset.amountOf id }

/-- What the trader hands over when it is dropped now. -/
def revenue (s : Session) (id : XcmAssetId) : ℕ :=
  s.trader.drop.elim 0 fun asset => asset.amountOf id

/-- No more weight is refunded than was bought, in the fee asset refunds and revenue are what was
taken, and no asset is refunded beyond what was taken of it. -/
structure Conserved (s : Session) : Prop where
  weight : s.refunded ≤ s.bought
  fees : ∀ id, s.feeAsset = some id → s.returned id + s.revenue id = s.taken id
  refunds : ∀ id, s.returned id ≤ s.taken id

/-- Before a purchase nothing is stored, before one that is paid nothing is taken, and only the
stored asset is returned. -/
structure Tied (s : Session) : Prop where
  first : s.feeAsset = none → s.trader.refundCache = none
  taken : s.trader.refundCache = none → ∀ id, s.taken id = 0
  returned : ∀ id, s.trader.refundCache.map (fun c => .concrete c.1) ≠ some id → s.returned id = 0

/-- The move stays within what was sold. A purchase that is paid in the fee asset finds this asset
stored, with room for its price, or nothing stored; a refund asks for weight that was bought and
not refunded, worth at most what is left of the payments in the stored asset. -/
def Move.Fits (X : Assets P) (s : Session) : Move A P → Prop
  | .buyWeight market weight payment => ∀ id n unitsPerSecond,
    (X.fungibleAssets payment).head? = some ⟨.concrete id, .fungible n⟩ →
    (market.assetId id).bind market.unitsPerSecond = some unitsPerSecond →
    s.feeAsset = some (.concrete id) →
    let price := FirstAssetTrader.price unitsPerSecond weight
    price ≠ 0 → price.toNat ≤ X.amount payment (.concrete id) →
    ∀ prevId stored rate, s.trader.refundCache = some (prevId, stored, rate) →
      prevId = id ∧ stored.toNat + price.toNat < 2 ^ 128
  | .refundWeight weight => ∀ id stored rate, s.trader.refundCache = some (id, stored, rate) →
    let weight := s.trader.refundable weight
    s.refunded + weight.toNat ≤ s.bought ∧
      (FirstAssetTrader.price rate weight).toNat ≤
        s.taken (.concrete id) - s.returned (.concrete id)

section Purchase
variable {X : Assets P} {s : Session} {market : Market A} {weight : Weight}
  {payment unused : P} {id : MultiLocation} {n amount : BitVec 128}

/-- What a purchase takes. -/
theorem taken_of_sub (hX : X.Lawful) (hne : amount ≠ 0)
    (h : X.checkedSub payment ⟨.concrete id, .fungible amount⟩ = some unused) (j : XcmAssetId) :
    X.amount payment j - X.amount unused j = if j = .concrete id then amount.toNat else 0 := by
  have hsome := Option.isSome_iff_exists.mpr ⟨unused, h⟩
  have hle := (hX.checkedSub_isSome payment (.concrete id) amount hne).mp hsome
  rw [hX.checkedSub_amount payment _ amount unused h j]
  split_ifs with hj
  · rw [hj]
    omega
  · omega

theorem purchaseAsset_of_head
    (hhead : (X.fungibleAssets payment).head? = some ⟨.concrete id, .fungible n⟩) :
    purchaseAsset X payment = some (.concrete id) := by
  rw [purchaseAsset, hhead]
  rfl

end Purchase

/-- The session after weight was sold for nothing, to a payment in asset `id`. -/
def gift (s : Session) (weight : Weight) (id : MultiLocation) : Session :=
  { s with
    feeAsset := s.feeAsset.or (some (.concrete id))
    bought := s.bought + weight.toNat }

/-- The session after `amount` was taken of asset `id` for weight. -/
def pay (s : Session) (weight : Weight) (id : MultiLocation) (amount rate : BitVec 128) :
    Session :=
  { s with
    trader := s.trader.charge weight id amount rate
    feeAsset := s.feeAsset.or (some (.concrete id))
    bought := s.bought + weight.toNat
    taken := fun j => s.taken j + if j = .concrete id then amount.toNat else 0 }

section Moves
variable {X : Assets P} {s : Session} {market : Market A} {weight : Weight}
  {payment unused : P} {id : MultiLocation} {n amount stored rate : BitVec 128}

theorem next_free (hhead : (X.fungibleAssets payment).head? = some ⟨.concrete id, .fungible n⟩)
    (h : s.trader.buyWeight X market weight payment = .ok (payment, s.trader)) :
    s.next X (.buyWeight market weight payment) = s.gift weight id := by
  simp only [next, h, purchaseAsset_of_head hhead, Nat.sub_self, Nat.add_zero, gift]

theorem next_paid (hX : X.Lawful) (hne : amount ≠ 0)
    (hhead : (X.fungibleAssets payment).head? = some ⟨.concrete id, .fungible n⟩)
    (hsub : X.checkedSub payment ⟨.concrete id, .fungible amount⟩ = some unused)
    (h : s.trader.buyWeight X market weight payment =
      .ok (unused, s.trader.charge weight id amount rate)) :
    s.next X (.buyWeight market weight payment) = s.pay weight id amount rate := by
  simp only [next, h, purchaseAsset_of_head hhead, taken_of_sub hX hne hsub, pay]

/-- A purchase fails, is free, or is paid. -/
theorem next_buyWeight_cases (hX : X.Lawful) (s : Session) (market : Market A) (weight : Weight)
    (payment : P) :
    (s.next X (.buyWeight market weight payment) = s ∧
        ∃ e, s.trader.buyWeight X market weight payment = .error e) ∨
    ∃ id n rate, (X.fungibleAssets payment).head? = some ⟨.concrete id, .fungible n⟩ ∧
      (market.assetId id).bind market.unitsPerSecond = some rate ∧
      (FirstAssetTrader.price rate weight = 0 ∧
          s.next X (.buyWeight market weight payment) = s.gift weight id ∨
        FirstAssetTrader.price rate weight ≠ 0 ∧
          (FirstAssetTrader.price rate weight).toNat ≤ X.amount payment (.concrete id) ∧
          s.next X (.buyWeight market weight payment) =
            s.pay weight id (FirstAssetTrader.price rate weight) rate) := by
  cases h : s.trader.buyWeight X market weight payment with
  | error e =>
    left
    constructor
    · simp only [next, h]
    · exact ⟨e, rfl⟩
  | ok result =>
    right
    obtain ⟨unused, trader⟩ := result
    obtain ⟨id, n, rate, hhead, hrate, ⟨hprice, rfl, rfl⟩ | ⟨hprice, hsub, rfl⟩⟩ :=
      FirstAssetTrader.buyWeight_ok.mp h
    · exact ⟨id, n, rate, hhead, hrate, .inl ⟨hprice, next_free hhead h⟩⟩
    · have hsome := Option.isSome_iff_exists.mpr ⟨unused, hsub⟩
      have hle := (hX.checkedSub_isSome payment (.concrete id) _ hprice).mp hsome
      have hnext := next_paid hX hprice hhead hsub h
      exact ⟨id, n, rate, hhead, hrate, .inr ⟨hprice, hle, hnext⟩⟩

/-- A purchase that fails has nothing to fit. -/
theorem fits_of_error {e : XcmError} (hX : X.Lawful)
    (h : s.trader.buyWeight X market weight payment = .error e) :
    (Move.buyWeight market weight payment).Fits X s := by
  intro id n unitsPerSecond hhead hrate _ price hprice hle
  have hsome := (hX.checkedSub_isSome payment (.concrete id) _ hprice).mpr hle
  obtain ⟨unused, hsub⟩ := Option.isSome_iff_exists.mp hsome
  have hok : s.trader.buyWeight X market weight payment = .ok (unused, _) :=
    FirstAssetTrader.buyWeight_ok.mpr
      ⟨id, n, unitsPerSecond, hhead, hrate, .inr ⟨hprice, hsub, rfl⟩⟩
  rw [h] at hok
  cases hok

theorem revenue_of_cache (h : s.trader.refundCache = some (id, stored, rate)) (j : XcmAssetId) :
    s.revenue j = if .concrete id = j then stored.toNat else 0 := by
  simp only [revenue, FirstAssetTrader.drop, h, Option.map_some, Option.elim_some,
    MultiAsset.amountOf]

theorem revenue_of_none (h : s.trader.refundCache = none) (j : XcmAssetId) : s.revenue j = 0 := by
  simp only [revenue, FirstAssetTrader.drop, h, Option.map_none, Option.elim_none]

/-- What is paid in one asset changes the revenue in no other. -/
theorem revenue_pay_of_ne {j : XcmAssetId} (hj : .concrete id ≠ j) :
    (s.pay weight id amount rate).revenue j = s.revenue j := by
  cases hcache : s.trader.refundCache with
  | none =>
    have hopen : (s.pay weight id amount rate).trader.refundCache = some (id, amount, rate) :=
      FirstAssetTrader.charge_cache_of_none hcache
    rw [revenue_of_cache hopen, revenue_of_none hcache, if_neg hj]
  | some cache =>
    obtain ⟨prevId, stored, rate'⟩ := cache
    rw [revenue_of_cache hcache]
    by_cases hid : prevId = id
    · subst hid
      have hkept : (s.pay weight prevId amount rate).trader.refundCache =
          some (prevId, saturatingAdd stored amount, rate') :=
        FirstAssetTrader.charge_cache_of_same hcache
      rw [revenue_of_cache hkept, if_neg hj, if_neg hj]
    · have hkept : (s.pay weight id amount rate).trader.refundCache =
          some (prevId, stored, rate') := FirstAssetTrader.charge_cache_of_other hid hcache
      rw [revenue_of_cache hkept]

theorem Tied.gift (ht : s.Tied) : (s.gift weight id).Tied := by
  refine ⟨?_, ht.taken, ht.returned⟩
  intro hnone
  exact ht.first (Option.or_eq_none_iff.mp hnone).1

theorem Tied.pay (ht : s.Tied) : (s.pay weight id amount rate).Tied := by
  have hfirst : (s.pay weight id amount rate).feeAsset ≠ none := by
    intro hnone
    cases (Option.or_eq_none_iff.mp hnone).2
  cases hcache : s.trader.refundCache with
  | none =>
    have hopen : (s.pay weight id amount rate).trader.refundCache = some (id, amount, rate) :=
      FirstAssetTrader.charge_cache_of_none hcache
    refine ⟨fun hnone => absurd hnone hfirst, ?_, ?_⟩
    · intro hnone
      rw [hopen] at hnone
      cases hnone
    · intro j _
      apply ht.returned
      rw [hcache]
      exact fun h => by cases h
  | some cache =>
    obtain ⟨prevId, stored, rate'⟩ := cache
    obtain ⟨stored', rate'', hkept⟩ : ∃ stored' rate'',
        (s.pay weight id amount rate).trader.refundCache = some (prevId, stored', rate'') := by
      by_cases hid : prevId = id
      · subst hid
        exact ⟨_, _, FirstAssetTrader.charge_cache_of_same hcache⟩
      · exact ⟨_, _, FirstAssetTrader.charge_cache_of_other hid hcache⟩
    refine ⟨fun hnone => absurd hnone hfirst, ?_, ?_⟩
    · intro hnone
      rw [hkept] at hnone
      cases hnone
    · intro j hj
      rw [hkept] at hj
      apply ht.returned
      rw [hcache]
      exact hj

/-- Without a purchase there is nothing to refund. -/
theorem next_refund_of_none (hcache : s.trader.refundCache = none) :
    s.next X (.refundWeight weight : Move A P) = s := by
  simp only [next, FirstAssetTrader.refundWeight, hcache, Option.elim_none, Nat.sub_self,
    Nat.add_zero]

theorem Tied.refund (ht : s.Tied) :
    (s.next X (.refundWeight weight : Move A P)).Tied := by
  cases hcache : s.trader.refundCache with
  | none =>
    rw [next_refund_of_none hcache]
    exact ht
  | some cache =>
    obtain ⟨id, stored, rate⟩ := cache
    have hnext : (s.next X (.refundWeight weight : Move A P)).trader.refundCache =
        some (id, saturatingSub stored (FirstAssetTrader.price rate
          (s.trader.refundable weight)), rate) := by
      simp only [next, FirstAssetTrader.refundWeight, hcache]
    refine ⟨?_, ?_, ?_⟩
    · intro hnone
      rw [ht.first hnone] at hcache
      cases hcache
    · intro hnone
      rw [hnext] at hnone
      cases hnone
    · intro j hj
      rw [hnext] at hj
      have hne : XcmAssetId.concrete id ≠ j := fun heq => hj (congrArg some heq)
      have hzero := ht.returned j (by rw [hcache]; exact hj)
      simp only [next, FirstAssetTrader.refundWeight, hcache, Option.elim_some,
        MultiAsset.amountOf, if_neg hne, Nat.add_zero]
      exact hzero

theorem Tied.next (hX : X.Lawful) (ht : s.Tied) (m : Move A P) : (s.next X m).Tied := by
  cases m with
  | buyWeight market weight payment =>
    rcases next_buyWeight_cases hX s market weight payment with
      ⟨hnext, -⟩ | ⟨id, n, rate, -, -, ⟨-, hnext⟩ | ⟨-, -, hnext⟩⟩
    · rw [hnext]
      exact ht
    · rw [hnext]
      exact ht.gift
    · rw [hnext]
      exact ht.pay
  | refundWeight weight => exact ht.refund

theorem conserved_gift (ht : s.Tied) (hc : s.Conserved) : (s.gift weight id).Conserved := by
  refine ⟨Nat.le_trans hc.weight (Nat.le_add_right _ _), ?_, hc.refunds⟩
  intro j hj
  cases hfee : s.feeAsset with
  | none =>
    have hcache := ht.first hfee
    have htaken := ht.taken hcache j
    have hreturned := ht.returned j (by rw [hcache]; exact fun h => by cases h)
    show s.returned j + s.revenue j = s.taken j
    rw [htaken, hreturned, revenue_of_none hcache]
  | some k =>
    have hkept : (s.gift weight id).feeAsset = some k := by
      simp only [gift, hfee, Option.some_or]
    obtain rfl := Option.some.inj (hkept.symm.trans hj)
    exact hc.fees k hfee

/-- A paid purchase conserves fees exactly if those in the fee asset add up. -/
theorem conserved_pay (hc : s.Conserved) {j : XcmAssetId}
    (hfee : (s.pay weight id amount rate).feeAsset = some j) :
    (s.pay weight id amount rate).Conserved ↔
      s.returned j + (s.pay weight id amount rate).revenue j =
        s.taken j + if j = .concrete id then amount.toNat else 0 := by
  constructor
  · intro h
    exact h.fees j hfee
  · intro heq
    refine ⟨Nat.le_trans hc.weight (Nat.le_add_right _ _), ?_,
      fun k => Nat.le_trans (hc.refunds k) (Nat.le_add_right _ _)⟩
    intro k hk
    obtain rfl := Option.some.inj (hfee.symm.trans hk)
    exact heq

/-- A purchase paid in the fee asset conserves fees exactly if nothing is stored, or this asset,
with room for the price. -/
theorem conserved_pay_self_iff (hc : s.Conserved) (hne : amount ≠ 0)
    (hfee : s.feeAsset = some (.concrete id)) :
    (s.pay weight id amount rate).Conserved ↔
      ∀ prevId stored rate', s.trader.refundCache = some (prevId, stored, rate') →
        prevId = id ∧ stored.toNat + amount.toNat < 2 ^ 128 := by
  have hpos : 0 < amount.toNat := by
    apply Nat.pos_of_ne_zero
    intro hzero
    exact hne (BitVec.eq_of_toNat_eq hzero)
  have hfee' : (s.pay weight id amount rate).feeAsset = some (.concrete id) := by
    simp only [pay, hfee, Option.some_or]
  have hbefore := hc.fees _ hfee
  rw [conserved_pay hc hfee', if_pos rfl]
  cases hcache : s.trader.refundCache with
  | none =>
    have hopen : (s.pay weight id amount rate).trader.refundCache = some (id, amount, rate) :=
      FirstAssetTrader.charge_cache_of_none hcache
    rw [revenue_of_none hcache] at hbefore
    rw [revenue_of_cache hopen, if_pos rfl]
    apply iff_of_true
    · omega
    · intro _ _ _ h
      cases h
  | some cache =>
    obtain ⟨prevId, stored, rate'⟩ := cache
    rw [revenue_of_cache hcache] at hbefore
    by_cases hid : prevId = id
    · subst hid
      have hkept : (s.pay weight prevId amount rate).trader.refundCache =
          some (prevId, saturatingAdd stored amount, rate') :=
        FirstAssetTrader.charge_cache_of_same hcache
      have hsum := saturatingAdd_toNat_iff stored amount
      rw [if_pos rfl] at hbefore
      rw [revenue_of_cache hkept, if_pos rfl]
      constructor
      · rintro h _ _ _ ⟨⟩
        refine ⟨rfl, hsum.mp ?_⟩
        omega
      · intro hall
        have hroom := hsum.mpr (hall prevId stored rate' rfl).2
        omega
    · have hkept : (s.pay weight id amount rate).trader.refundCache =
          some (prevId, stored, rate') := FirstAssetTrader.charge_cache_of_other hid hcache
      have hother : XcmAssetId.concrete prevId ≠ .concrete id :=
        fun heq => hid (XcmAssetId.concrete.inj heq)
      rw [if_neg hother] at hbefore
      rw [revenue_of_cache hkept, if_neg hother]
      apply iff_of_false
      · omega
      · intro hall
        exact hid (hall prevId stored rate' rfl).1

/-- A purchase paid in another asset, or the first one, conserves fees. -/
theorem conserved_pay_other (ht : s.Tied) (hc : s.Conserved)
    (hfee : s.feeAsset ≠ some (.concrete id)) : (s.pay weight id amount rate).Conserved := by
  cases hfirst : s.feeAsset with
  | none =>
    have hcache := ht.first hfirst
    have hfee' : (s.pay weight id amount rate).feeAsset = some (.concrete id) := by
      simp only [pay, hfirst, Option.none_or]
    have hopen : (s.pay weight id amount rate).trader.refundCache = some (id, amount, rate) :=
      FirstAssetTrader.charge_cache_of_none hcache
    have htaken := ht.taken hcache (.concrete id)
    have hreturned := ht.returned (.concrete id) (by rw [hcache]; exact fun h => by cases h)
    rw [conserved_pay hc hfee', revenue_of_cache hopen, if_pos rfl]
    omega
  | some j =>
    have hfee' : (s.pay weight id amount rate).feeAsset = some j := by
      simp only [pay, hfirst, Option.some_or]
    have hj : j ≠ .concrete id := by
      rintro rfl
      exact hfee hfirst
    rw [conserved_pay hc hfee', revenue_pay_of_ne (Ne.symm hj), if_neg hj]
    exact hc.fees j hfirst

section Refund
variable (hcache : s.trader.refundCache = some (id, stored, rate))
include hcache

theorem refund_refunded : (s.next X (.refundWeight weight : Move A P)).refunded =
    s.refunded + (s.trader.refundable weight).toNat := by
  simp only [next, FirstAssetTrader.refundWeight_weight hcache]

theorem refund_returned (j : XcmAssetId) :
    (s.next X (.refundWeight weight : Move A P)).returned j = s.returned j +
      if .concrete id = j then
        (FirstAssetTrader.price rate (s.trader.refundable weight)).toNat else 0 := by
  simp only [next, FirstAssetTrader.refundWeight, hcache, Option.elim_some, MultiAsset.amountOf]

theorem refund_revenue (j : XcmAssetId) :
    (s.next X (.refundWeight weight : Move A P)).revenue j =
      if .concrete id = j then stored.toNat -
        (FirstAssetTrader.price rate (s.trader.refundable weight)).toNat else 0 := by
  have hnext : (s.next X (.refundWeight weight : Move A P)).trader.refundCache =
      some (id, saturatingSub stored (FirstAssetTrader.price rate
        (s.trader.refundable weight)), rate) := by
    simp only [next, FirstAssetTrader.refundWeight, hcache]
  rw [revenue_of_cache hnext, saturatingSub_toNat]

end Refund

/-- A refund conserves weight and fees exactly if both are there. -/
theorem conserved_refund_iff (hc : s.Conserved) :
    (s.next X (.refundWeight weight : Move A P)).Conserved ↔
      (.refundWeight weight : Move A P).Fits X s := by
  cases hcache : s.trader.refundCache with
  | none =>
    rw [next_refund_of_none hcache]
    apply iff_of_true hc
    intro _ _ _ h
    rw [hcache] at h
    cases h
  | some cache =>
    obtain ⟨id, stored, rate⟩ := cache
    have htaken : (s.next X (.refundWeight weight : Move A P)).taken = s.taken := rfl
    constructor
    · intro h id' stored' rate' heq
      rw [hcache] at heq
      cases heq
      have hbound := h.weight
      have hafter := h.refunds (.concrete id)
      rw [refund_refunded hcache] at hbound
      rw [refund_returned hcache, if_pos rfl, htaken] at hafter
      refine ⟨hbound, ?_⟩
      omega
    · intro h
      obtain ⟨hbound, hworth⟩ := h id stored rate hcache
      have hbefore := hc.refunds (.concrete id)
      constructor
      · rw [refund_refunded hcache]
        exact hbound
      · intro j hj
        have hfees := hc.fees j hj
        rw [revenue_of_cache hcache] at hfees
        rw [refund_returned hcache, refund_revenue hcache, htaken]
        by_cases hid : XcmAssetId.concrete id = j
        · subst hid
          rw [if_pos rfl] at hfees
          rw [if_pos rfl, if_pos rfl]
          omega
        · rw [if_neg hid] at hfees
          rw [if_neg hid, if_neg hid]
          exact hfees
      · intro j
        rw [refund_returned hcache, htaken]
        split_ifs with hj
        · rw [← hj]
          omega
        · exact hc.refunds j

theorem conserved_next_iff (hX : X.Lawful) (ht : s.Tied) (hc : s.Conserved) (m : Move A P) :
    (s.next X m).Conserved ↔ m.Fits X s := by
  cases m with
  | refundWeight weight => exact conserved_refund_iff hc
  | buyWeight market weight payment =>
    rcases next_buyWeight_cases hX s market weight payment with
      ⟨hnext, e, herror⟩ | ⟨id, n, rate, hhead, hrate, hcase⟩
    · rw [hnext]
      exact iff_of_true hc (fits_of_error hX herror)
    · have hfits : (Move.buyWeight market weight payment).Fits X s ↔
          (s.feeAsset = some (.concrete id) → FirstAssetTrader.price rate weight ≠ 0 →
            (FirstAssetTrader.price rate weight).toNat ≤ X.amount payment (.concrete id) →
            ∀ prevId stored rate', s.trader.refundCache = some (prevId, stored, rate') →
              prevId = id ∧
                stored.toNat + (FirstAssetTrader.price rate weight).toNat < 2 ^ 128) := by
        constructor
        · intro h
          exact h id n rate hhead hrate
        · intro h id' n' rate' hhead' hrate'
          rw [hhead] at hhead'
          cases hhead'
          obtain rfl := Option.some.inj (hrate.symm.trans hrate')
          exact h
      rw [hfits]
      rcases hcase with ⟨hprice, hnext⟩ | ⟨hprice, hle, hnext⟩
      · rw [hnext]
        exact iff_of_true (conserved_gift ht hc) fun _ hpaid => absurd hprice hpaid
      · rw [hnext]
        by_cases hfee : s.feeAsset = some (.concrete id)
        · rw [conserved_pay_self_iff hc hprice hfee]
          constructor
          · intro h _ _ _
            exact h
          · intro h
            exact h hfee hprice hle
        · exact iff_of_true (conserved_pay_other ht hc hfee) fun h => absurd h hfee

end Moves

theorem tied_new : new.Tied := ⟨fun _ => rfl, fun _ _ => rfl, fun _ _ => rfl⟩

theorem conserved_new : new.Conserved :=
  ⟨Nat.le_refl _, fun _ h => (Option.some_ne_none _ h.symm).elim, fun _ => Nat.le_refl _⟩

/-- Fees and weight are conserved at every point of a message exactly if every purchase and every
refund fits what was sold before. -/
theorem fees_conserved {X : Assets P} (hX : X.Lawful) {tr : List (Session × Move A P)} {s : Session}
    (h : Run (next X) (fun _ _ => True) new tr s) :
    Always Conserved tr s ↔ ∀ x ∈ tr, x.2.Fits X x.1 := by
  apply h.always_iff conserved_new
  intro tr s m hrun hc _
  have ht : s.Tied := hrun.invariant tied_new fun _ m ht _ => ht.next hX m
  exact conserved_next_iff hX ht hc m

section Sample

/-- A payment in at most one asset. -/
def purse : Assets (Option (MultiLocation × BitVec 128)) where
  fungibleAssets payment := payment.toList.map fun (id, n) => ⟨.concrete id, .fungible n⟩
  checkedSub payment asset :=
    match payment, asset with
    | some (id, n), ⟨.concrete j, .fungible amount⟩ =>
      if j = id ∧ amount ≤ n then
        some (if amount = n then none else some (id, n - amount))
      else none
    | _, _ => none

theorem purse_amount_some (id : MultiLocation) (n : BitVec 128) (j : XcmAssetId) :
    purse.amount (some (id, n)) j = if .concrete id = j then n.toNat else 0 := by
  simp [Assets.amount, purse, MultiAsset.amountOf]

theorem purse_amount_none (j : XcmAssetId) : purse.amount none j = 0 := by
  simp [Assets.amount, purse]

theorem purse_lawful : purse.Lawful := by
  constructor
  · intro payment id n hn
    have hpos : 0 < n.toNat := Nat.pos_of_ne_zero fun h => hn (BitVec.eq_of_toNat_eq h)
    cases payment with
    | none =>
      rw [purse_amount_none]
      simp only [purse, Option.isSome_none, Bool.false_eq_true, false_iff]
      omega
    | some payment =>
      obtain ⟨id', n'⟩ := payment
      rw [purse_amount_some]
      cases id with
      | abstract key =>
        simp only [purse, Option.isSome_none, Bool.false_eq_true, false_iff, reduceCtorEq, if_false]
        omega
      | concrete j =>
        simp only [purse, XcmAssetId.concrete.injEq, BitVec.le_def]
        by_cases hid : j = id'
        · simp [hid]
        · simp only [hid, false_and, if_false, Option.isSome_none, Bool.false_eq_true, false_iff,
            Ne.symm hid]
          omega
  · intro payment id n unused h j
    cases payment with
    | none => cases h
    | some payment =>
      obtain ⟨id', n'⟩ := payment
      cases id with
      | abstract key => cases h
      | concrete k =>
        simp only [purse] at h
        split_ifs at h with hle hall
        · obtain ⟨rfl, -⟩ := hle
          obtain rfl := Option.some.inj h
          rw [purse_amount_none, purse_amount_some, hall]
          simp only [eq_comm (a := j)]
          exact (Nat.sub_self _).symm
        · obtain ⟨rfl, hle⟩ := hle
          obtain rfl := Option.some.inj h
          rw [purse_amount_some, purse_amount_some, BitVec.toNat_sub_of_le hle]
          by_cases hj : j = .concrete k
          · rw [if_pos hj, if_pos hj.symm, if_pos hj.symm]
          · rw [if_neg hj, if_neg (Ne.symm hj), if_neg (Ne.symm hj)]

/-- Any asset costs a thousand units a second. -/
def market : Market Unit := ⟨fun _ => some (), fun _ => some 1000⟩

def second (n : ℕ) : Weight := BitVec.ofNat 64 (n * weightPerSecond)

def session (ms : List (Move Unit (Option (MultiLocation × BitVec 128)))) : Session :=
  ms.foldl (next purse) new

/-- A second of weight is bought, and two are refunded. -/
def twice : List (Move Unit (Option (MultiLocation × BitVec 128))) :=
  [.buyWeight market (second 1) (some (.sibling 2000, 5000)), .refundWeight (second 2)]

/-- A first purchase too small to cost anything, then one in another asset and one in the first. -/
def freeFirst : List (Move Unit (Option (MultiLocation × BitVec 128))) :=
  [.buyWeight market 1 (some (.sibling 2000, 5000)),
    .buyWeight market (second 1) (some (.sibling 2001, 5000)),
    .buyWeight market (second 1) (some (.sibling 2000, 5000))]

theorem runs (ms : List (Move Unit (Option (MultiLocation × BitVec 128)))) :
    Run (next purse) (fun _ _ => True) new (trace (next purse) new ms) (session ms) :=
  Run.play fun _ _ => trivial

theorem fees_conserved_twice : Always Conserved (trace (next purse) new twice) (session twice) ↔
    ∀ x ∈ trace (next purse) new twice, x.2.Fits purse x.1 :=
  fees_conserved purse_lawful (runs twice)

/-- A message gets back twice what it paid, or what it paid in the asset of its first purchase is
neither refunded nor handed over. -/
theorem refund_exceeds : purse.Lawful ∧
    (Run (next purse) (fun _ _ => True) new (trace (next purse) new twice) (session twice) ∧
      (session twice).taken (.concrete (.sibling 2000)) = 1000 ∧
      (session twice).returned (.concrete (.sibling 2000)) = 2000 ∧
      (session twice).bought < (session twice).refunded ∧ ¬ (session twice).Conserved) ∧
    Run (next purse) (fun _ _ => True) new (trace (next purse) new freeFirst)
        (session freeFirst) ∧
      (session freeFirst).feeAsset = some (.concrete (.sibling 2000)) ∧
      (session freeFirst).taken (.concrete (.sibling 2000)) = 1000 ∧
      (session freeFirst).returned (.concrete (.sibling 2000)) = 0 ∧
      (session freeFirst).revenue (.concrete (.sibling 2000)) = 0 ∧
      ¬ (session freeFirst).Conserved := by
  have hweight : (session twice).bought < (session twice).refunded := by decide +kernel
  have hfirst : (session freeFirst).feeAsset = some (.concrete (.sibling 2000)) := by
    decide +kernel
  have htaken : (session freeFirst).taken (.concrete (.sibling 2000)) = 1000 := by decide +kernel
  have hreturned : (session freeFirst).returned (.concrete (.sibling 2000)) = 0 := by
    decide +kernel
  have hrevenue : (session freeFirst).revenue (.concrete (.sibling 2000)) = 0 := by decide +kernel
  refine ⟨purse_lawful, ⟨runs twice, by decide +kernel, by decide +kernel, hweight, ?_⟩,
    runs freeFirst, hfirst, htaken, hreturned, hrevenue, ?_⟩
  · intro h
    exact Nat.not_lt_of_ge h.weight hweight
  · intro h
    have hfees := h.fees _ hfirst
    omega

end Sample

end Session
end ZkNft
