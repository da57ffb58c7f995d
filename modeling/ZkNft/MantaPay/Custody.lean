import Mathlib.Data.List.Infix
import ZkNft.MantaPay.Books
import ZkNft.MantaPay.Sample

/-! Items in the pool over whole histories: which notes the custody of an item backs. -/

namespace ZkNft
open TransferLedger

variable {R : Runtime}

/-- `NFT_AMOUNT` of the SDK. -/
def nftAmount : AssetValue := 1000000000000

abbrev Item := StandardAssetId × StandardAssetId

/-- The pallet account owns the item. -/
def State.Holds (s : State R) (item : Item) : Prop :=
  R.uniquesOwner s.world item.1 item.2 = some R.palletAccount

instance (s : State R) (item : Item) : Decidable (s.Holds item) :=
  inferInstanceAs (Decidable (_ = _))

def mintedItem (s : State R) (item : Item) (tr : History R) : ℕ :=
  tally (fun post => s.itemOf post = some item) (·.sources) tr

def redeemedItem (s : State R) (item : Item) (tr : History R) : ℕ :=
  tally (fun post => s.itemOf post = some item) (·.sinks) tr

/-- What was minted as one private asset id. -/
def mintedAs (id : StandardAssetId) (tr : History R) : ℕ :=
  tally (fun post => assetKey post = some id) (·.sources) tr

def redeemedAs (id : StandardAssetId) (tr : History R) : ℕ :=
  tally (fun post => assetKey post = some id) (·.sinks) tr

/-- Private transfers keep the value of each asset id, so that none pays out more than went in. -/
def ValuePreserving (tr : History R) : Prop :=
  ∀ tr₁, tr₁ <+: tr → ∀ id, redeemedAs id tr₁ ≤ mintedAs id tr₁

/-- The item went into custody with a note of value `v` and has stayed there since. -/
def PutIn (tr : History R) (item : Item) (v : AssetValue) : Prop :=
  ∃ tr₁ s m post tr₂, tr = tr₁ ++ (s, m) :: tr₂ ∧ m.accepted s = some post ∧
    s.itemOf post = some item ∧ post.body.sources = [v] ∧ ¬ s.Holds item ∧
    ∀ x ∈ tr₂, x.1.Holds item

/-- An item goes in only from outside, and leaves only from inside with the value it went in. -/
def CustodyStep (tr : History R) (s : State R) (m : Move R) : Prop :=
  ∀ o t encoded post item, m.accepted s = some post → s.itemOf post = some item →
    (m = .call (.signed o) (.toPrivate t encoded) → ¬ s.Holds item) ∧
    (m = .call (.signed o) (.toPublic t encoded) →
      s.Holds item ∧ ∃ v, post.body.sinks = [v] ∧ PutIn tr item v)

/-- The steps of a history are in order and the private value of every item is one unit amount
while the pallet holds it and nothing else. -/
structure Custody (s : State R) (tr : History R) : Prop where
  steps : Throughout CustodyStep tr
  outstanding : ∀ item, mintedItem s item tr =
    redeemedItem s item tr + if s.Holds item then nftAmount.toNat else 0

/-- The item that the asset of a public transfer names. -/
def State.itemNamed (s : State R) (asset : Asset) : Option Item :=
  ((idFromField asset.id).bind s.registry.get).bind AssetStorageMetadata.getNonFungibleId

/-- What nothing in the code sees to: an item is minted only from outside the pool, its notes have
the unit amount, and no one hands it to the pallet account. Other pallets write no storage of
MantaPay, change no registered metadata and do not move the items of the pallet account. -/
def Move.Orderly (s : State R) : Move R → Prop
  | .other s' =>
    s'.pay = s.pay ∧ s.KeepsMetadata s' ∧ ∀ item, s'.Holds item ↔ s.Holds item
  | .call (.signed o) c =>
    (∀ q post item, c.posting o.account = some q → c.Guard s → q.Admits s post →
      s.itemOf post = some item → (∀ v ∈ post.body.sources, ¬ s.Holds item ∧ v = nftAmount) ∧
        ∀ v ∈ post.body.sinks, v = nftAmount) ∧
    ∀ asset sink item, c = .publicTransfer asset sink → s.itemNamed asset = some item →
      R.uniquesOwner s.world item.1 item.2 = some o.account →
      R.uniquesCanTransfer s.world item.1 item.2 = true → sink ≠ R.palletAccount
  | .call _ _ => True

section Steps
variable {s s' : State R} {m : Move R} {tr : History R} {item : Item} {id : StandardAssetId}

theorem PutIn.snoc {v : AssetValue} (h : PutIn tr item v) (hs : s.Holds item) :
    PutIn (tr ++ [(s, m)]) item v := by
  obtain ⟨tr₁, s₁, m₁, post, tr₂, rfl, hpost, hitem, hv, hout, hrest⟩ := h
  refine ⟨tr₁, s₁, m₁, post, tr₂ ++ [(s, m)], by simp, hpost, hitem, hv, hout, ?_⟩
  intro x hx
  rcases List.mem_append.mp hx with hx | hx
  · exact hrest x hx
  · rw [List.mem_singleton.mp hx]
    exact hs

/-- The private asset id names the item. -/
def State.Names (s : State R) (id : StandardAssetId) (item : Item) : Prop :=
  (s.registry.get id).bind AssetStorageMetadata.getNonFungibleId = some item

theorem State.Names.keep (h : s.Names id item) (hk : s.KeepsMetadata s') : s'.Names id item := by
  obtain ⟨md, hget, hmd⟩ := Option.bind_eq_some_iff.mp h
  rw [State.Names, hk id md hget]
  exact hmd

/-- An id that names an item now named it before or was not registered. -/
theorem State.Names.back (h : s'.Names id item) (hk : s.KeepsMetadata s') :
    s.Names id item ∨ s.registry.get id = none := by
  cases hget : s.registry.get id with
  | none => exact .inr rfl
  | some md =>
    rw [State.Names, hk id md hget] at h
    refine .inl ?_
    rw [State.Names, hget]
    exact h

theorem itemOf_eq_some {post : Config.TransferPost R.crypto.toFields} :
    s.itemOf post = some item ↔ ∃ id, assetKey post = some id ∧ s.Names id item := by
  rw [State.itemOf, State.metadataOf, Option.bind_assoc, Option.bind_eq_some_iff]
  rfl

/-- The custody of an item backs the notes of one private asset id. -/
structure Backed (s : State R) (tr : History R) (item : Item) (backing : Option StandardAssetId) :
    Prop where
  holds : s.Holds item ↔ backing.isSome = true
  names : ∀ id ∈ backing, s.Names id item
  notes : ∀ id, s.Names id item → mintedAs id tr =
    redeemedAs id tr + if backing = some id then nftAmount.toNat else 0

/-- What carries the custody property through a history. -/
structure Vault (s : State R) (tr : History R) : Prop extends Custody s tr where
  registered : Registered s tr
  putIn : ∀ item, s.Holds item → PutIn tr item nftAmount
  backed : ∀ item, ∃ backing, Backed s tr item backing

theorem tallyAs_unregistered (h : Registered s tr) (hid : s.registry.get id = none)
    (values : Config.TransferPostBody R.crypto.toFields → List AssetValue) :
    tally (fun post => assetKey post = some id) values tr = 0 := by
  apply tally_eq_zero
  intro post hpost hkey
  have hsome := h post hpost id hkey
  rw [hid] at hsome
  cases hsome

/-- The notes stay backed when the metadata grows. -/
theorem Backed.keep {backing : Option StandardAssetId} (h : Backed s tr item backing)
    (hreg : Registered s tr) (hk : s.KeepsMetadata s') (hs : s'.Holds item ↔ s.Holds item) :
    Backed s' tr item backing := by
  refine ⟨hs.trans h.holds, fun id hid => (h.names id hid).keep hk, fun id hid => ?_⟩
  rcases hid.back hk with hid' | hnone
  · exact h.notes id hid'
  · have hother : backing ≠ some id := by
      intro hb
      obtain ⟨md, hget, -⟩ := Option.bind_eq_some_iff.mp (h.names id hb)
      rw [hnone] at hget
      cases hget
    rw [mintedAs, redeemedAs, tallyAs_unregistered hreg hnone, tallyAs_unregistered hreg hnone,
      if_neg hother]

/-- A move that posts nothing about the item adds nothing to its notes. -/
theorem tallyAs_other (hid : s.Names id item)
    (hother : ∀ post, m.accepted s = some post → s.itemOf post ≠ some item)
    (values : Config.TransferPostBody R.crypto.toFields → List AssetValue) :
    tally (fun post => assetKey post = some id) values (tr ++ [(s, m)]) =
      tally (fun post => assetKey post = some id) values tr := by
  rw [tally_snoc]
  cases hpost : m.accepted s with
  | none => rfl
  | some post =>
    have hne : ¬ assetKey post = some id := fun hkey =>
      hother post hpost (itemOf_eq_some.mpr ⟨id, hkey, hid⟩)
    simp [share, hne]

theorem tallyItem_other (hother : ∀ post, m.accepted s = some post → s.itemOf post ≠ some item)
    (values : Config.TransferPostBody R.crypto.toFields → List AssetValue) :
    tally (fun post => s.itemOf post = some item) values (tr ++ [(s, m)]) =
      tally (fun post => s.itemOf post = some item) values tr := by
  rw [tally_snoc]
  cases hpost : m.accepted s with
  | none => rfl
  | some post => simp [share, hother post hpost]

theorem itemTally_keep (h : Registered s tr) (hk : s.KeepsMetadata s') (item : Item) :
    mintedItem s' item tr = mintedItem s item tr ∧
      redeemedItem s' item tr = redeemedItem s item tr :=
  ⟨h.tally_keep hk _ _ _, h.tally_keep hk _ _ _⟩

theorem Backed.other {backing : Option StandardAssetId} (h : Backed s tr item backing)
    (hother : ∀ post, m.accepted s = some post → s.itemOf post ≠ some item) :
    Backed s (tr ++ [(s, m)]) item backing where
  holds := h.holds
  names := h.names
  notes id hid := by
    rw [mintedAs, redeemedAs, tallyAs_other hid hother, tallyAs_other hid hother]
    exact h.notes id hid

/-- A move keeps the property if it posts no item and the pallet account keeps its items. -/
theorem Vault.quiet (hR : R.Lawful) (h : Vault s tr)
    (hquiet : ∀ post, m.accepted s = some post → s.itemOf post = none)
    (hk : s.KeepsMetadata (m.next s)) (hs : ∀ item, (m.next s).Holds item ↔ s.Holds item) :
    Vault (m.next s) (tr ++ [(s, m)]) := by
  have hreg : Registered s (tr ++ [(s, m)]) := h.registered.snoc hR
  have hother : ∀ item post, m.accepted s = some post → s.itemOf post ≠ some item := by
    intro item post hpost hitem
    rw [hquiet post hpost] at hitem
    cases hitem
  refine ⟨⟨h.steps.snoc ?_, ?_⟩, hreg.keep hk, ?_, ?_⟩
  · intro o t encoded post item hpost hitem
    exact absurd hitem (hother item post hpost)
  · intro item
    have ⟨hmint, hred⟩ := itemTally_keep hreg hk item
    rw [hmint, hred, mintedItem, redeemedItem, tallyItem_other (hother item),
      tallyItem_other (hother item)]
    simp only [hs item]
    exact h.outstanding item
  · intro item hin
    have hheld := (hs item).mp hin
    exact (h.putIn item hheld).snoc hheld
  · intro item
    obtain ⟨backing, hb⟩ := h.backed item
    exact ⟨backing, (hb.other (hother item)).keep hreg hk (hs item)⟩

/-- The tallies after a post about the item with the given public values. -/
theorem tally_posted {post : Config.TransferPost R.crypto.toFields}
    (hpost : m.accepted s = some post)
    (p : Config.TransferPost R.crypto.toFields → Prop) [DecidablePred p] (hp : p post)
    (values : Config.TransferPostBody R.crypto.toFields → List AssetValue) :
    tally p values (tr ++ [(s, m)]) = tally p values tr + total (values post.body) := by
  rw [tally_snoc]
  simp [hpost, share, hp]

theorem total_nil : total [] = 0 := rfl

theorem total_singleton (v : AssetValue) : total [v] = v.toNat := by simp [total]

section Post
variable {post : Config.TransferPost R.crypto.toFields} (hR : R.Lawful) (h : Vault s tr)
  (hpost : m.accepted s = some post) (hitem : s.itemOf post = some item)
  (hreg : (m.next s).registry = s.registry)
include hR h hpost hitem hreg

/-- A post about one item keeps the property if it does so for this item. -/
theorem Vault.posted (hstep : CustodyStep tr s m)
    (hothers : ∀ item', item' ≠ item → ((m.next s).Holds item' ↔ s.Holds item'))
    (hout : mintedItem s item (tr ++ [(s, m)]) = redeemedItem s item (tr ++ [(s, m)]) +
      if (m.next s).Holds item then nftAmount.toNat else 0)
    (hput : (m.next s).Holds item → PutIn (tr ++ [(s, m)]) item nftAmount)
    (hbacked : ∃ backing, Backed (m.next s) (tr ++ [(s, m)]) item backing) :
    Vault (m.next s) (tr ++ [(s, m)]) := by
  have hall : Registered s (tr ++ [(s, m)]) := h.registered.snoc hR
  have hk : s.KeepsMetadata (m.next s) := by
    intro id md hget
    rw [hreg]
    exact hget
  have hother : ∀ item', item' ≠ item → ∀ post', m.accepted s = some post' →
      s.itemOf post' ≠ some item' := by
    intro item' hne post' hpost' hitem'
    obtain rfl := Option.some.inj (hpost.symm.trans hpost')
    exact hne (Option.some.inj (hitem'.symm.trans hitem))
  refine ⟨⟨h.steps.snoc hstep, ?_⟩, hall.keep hk, ?_, ?_⟩
  · intro item'
    have ⟨hmint, hred⟩ := itemTally_keep hall hk item'
    rw [hmint, hred]
    by_cases hne : item' = item
    · rw [hne]
      exact hout
    · rw [mintedItem, redeemedItem, tallyItem_other (hother item' hne),
        tallyItem_other (hother item' hne)]
      simp only [hothers item' hne]
      exact h.outstanding item'
  · intro item' hin
    by_cases hne : item' = item
    · rw [hne] at hin ⊢
      exact hput hin
    · have hheld := (hothers item' hne).mp hin
      exact (h.putIn item' hheld).snoc hheld
  · intro item'
    by_cases hne : item' = item
    · rw [hne]
      exact hbacked
    · obtain ⟨backing, hb⟩ := h.backed item'
      exact ⟨backing, (hb.other (hother item' hne)).keep hall hk (hothers item' hne)⟩

/-- Minting an item from outside the pool with the unit amount keeps the property. -/
theorem Vault.mint (hstep : CustodyStep tr s m)
    (hothers : ∀ item', item' ≠ item → ((m.next s).Holds item' ↔ s.Holds item'))
    (hso : post.body.sources = [nftAmount]) (hsi : post.body.sinks = []) (hout : ¬ s.Holds item)
    (hin : (m.next s).Holds item) : Vault (m.next s) (tr ++ [(s, m)]) := by
  obtain ⟨id, hkey, hname⟩ := itemOf_eq_some.mp hitem
  obtain ⟨backing, hb⟩ := h.backed item
  have hnone : backing = none := by
    cases hbk : backing with
    | none => rfl
    | some id' => exact absurd (hb.holds.mpr (by rw [hbk]; rfl)) hout
  refine h.posted hR hpost hitem hreg hstep hothers ?_ ?_ ⟨some id, ?_, ?_, ?_⟩
  · have hold := h.outstanding item
    rw [if_neg hout] at hold
    rw [mintedItem, redeemedItem, tally_posted hpost _ hitem, tally_posted hpost _ hitem, hso, hsi,
      total_singleton, total_nil, if_pos hin, ← mintedItem, ← redeemedItem, hold]
  · intro _
    exact ⟨tr, s, m, post, [], rfl, hpost, hitem, hso, hout, fun x hx => by cases hx⟩
  · exact iff_of_true hin rfl
  · intro id' hid'
    obtain rfl := Option.some.inj hid'
    rw [State.Names, hreg]
    exact hname
  · intro id' hid'
    rw [State.Names, hreg] at hid'
    have hold := hb.notes id' hid'
    rw [hnone, if_neg (by simp)] at hold
    by_cases he : id = id'
    · subst he
      rw [mintedAs, redeemedAs, tally_posted hpost _ hkey, tally_posted hpost _ hkey, hso, hsi,
        total_singleton, total_nil, if_pos rfl, ← mintedAs, ← redeemedAs, hold]
    · have hne : ¬ assetKey post = some id' := fun hk' =>
        he (Option.some.inj (hkey.symm.trans hk'))
      rw [mintedAs, redeemedAs, tally_snoc, tally_snoc, hpost, if_neg (by simpa using he)]
      simp only [Option.elim_some, share, if_neg hne]
      exact hold

omit hR hreg in
/-- Notes of the unit amount are paid out only by the id that the custody backs. -/
theorem Vault.backs (hsound : ValuePreserving (tr ++ [(s, m)])) (hso : post.body.sources = [])
    (hsi : post.body.sinks = [nftAmount]) :
    ∃ id, assetKey post = some id ∧ Backed s tr item (some id) := by
  obtain ⟨id, hkey, hname⟩ := itemOf_eq_some.mp hitem
  obtain ⟨backing, hb⟩ := h.backed item
  have hle := hsound _ List.prefix_rfl id
  have hnotes := hb.notes id hname
  rw [mintedAs, redeemedAs, tally_posted hpost _ hkey, tally_posted hpost _ hkey, hso, hsi,
    total_singleton, total_nil, ← mintedAs, ← redeemedAs, hnotes] at hle
  have hpos : 0 < nftAmount.toNat := by decide
  have hbacking : backing = some id := by
    by_contra hne
    rw [if_neg hne] at hle
    omega
  exact ⟨id, hkey, hbacking ▸ hb⟩

/-- Redeeming an item with the unit amount keeps the property. -/
theorem Vault.redeem (hstep : CustodyStep tr s m) (hsound : ValuePreserving (tr ++ [(s, m)]))
    (hothers : ∀ item', item' ≠ item → ((m.next s).Holds item' ↔ s.Holds item'))
    (hso : post.body.sources = []) (hsi : post.body.sinks = [nftAmount])
    (hout : ¬ (m.next s).Holds item) : Vault (m.next s) (tr ++ [(s, m)]) := by
  obtain ⟨id, hkey, hb⟩ := h.backs hpost hitem hsound hso hsi
  have hheld : s.Holds item := hb.holds.mpr rfl
  refine h.posted hR hpost hitem hreg hstep hothers ?_ (fun hin => absurd hin hout)
    ⟨none, ?_, ?_, ?_⟩
  · have hold := h.outstanding item
    rw [if_pos hheld] at hold
    rw [mintedItem, redeemedItem, tally_posted hpost _ hitem, tally_posted hpost _ hitem, hso, hsi,
      total_singleton, total_nil, if_neg hout, ← mintedItem, ← redeemedItem, hold]
  · exact iff_of_false hout (by simp)
  · intro id' hid'
    cases hid'
  · intro id' hid'
    rw [State.Names, hreg] at hid'
    have hold := hb.notes id' hid'
    by_cases he : id = id'
    · subst he
      rw [if_pos rfl] at hold
      rw [mintedAs, redeemedAs, tally_posted hpost _ hkey, tally_posted hpost _ hkey, hso, hsi,
        total_singleton, total_nil, if_neg (by simp), ← mintedAs, ← redeemedAs, hold]
    · rw [if_neg (by simpa using he)] at hold
      have hne : ¬ assetKey post = some id' := fun hk' =>
        he (Option.some.inj (hkey.symm.trans hk'))
      rw [mintedAs, redeemedAs, tally_snoc, tally_snoc, hpost, if_neg (by simp)]
      simp only [Option.elim_some, share, if_neg hne]
      exact hold

end Post

theorem holds_of_world (h : s'.world = s.world) (item : Item) : s'.Holds item ↔ s.Holds item := by
  rw [State.Holds, State.Holds, h]

theorem holds_of_moved {src dst : R.Account} {amount : Balance}
    (h : R.Moved s.world s'.world id src dst amount) (item : Item) :
    s'.Holds item ↔ s.Holds item := by
  rw [State.Holds, State.Holds, h.items]

/-- An item that moves leaves the others where they are. -/
theorem holds_of_transfer (hR : R.Lawful) {c i : StandardAssetId} {dst : R.Account}
    (h : R.uniquesTransfer s.world c i dst = .ok s'.world) :
    (s'.Holds (c, i) ↔ dst = R.palletAccount) ∧
      ∀ item, item ≠ (c, i) → (s'.Holds item ↔ s.Holds item) := by
  have ⟨howner, hother⟩ := hR.frame.uniquesTransfer_owner _ _ _ _ _ h
  constructor
  · rw [State.Holds, howner, Option.some.injEq]
  · intro item hne
    rw [State.Holds, State.Holds, hother item.1 item.2 hne]

section Call
variable {o : Signer R} {call : Call R} {q : Posting R}
  {post : Config.TransferPost R.crypto.toFields} {item : Item}
  (hcall : m = .call (.signed o) call) (hq : call.posting o.account = some q)
  (hcounts : q.Counts post.body) (hpost : m.accepted s = some post)
  (hitem : s.itemOf post = some item)
include hcall hq hcounts hpost hitem

/-- A call that mints an item is no `to_public`. -/
theorem custodyStep_of_mint (hsi : post.body.sinks = []) (hout : ¬ s.Holds item) :
    CustodyStep tr s m := by
  intro o' t encoded post' item' hpost' hitem'
  obtain rfl := Option.some.inj (hpost.symm.trans hpost')
  obtain rfl := Option.some.inj (hitem.symm.trans hitem')
  refine ⟨fun _ => hout, ?_⟩
  intro hpublic
  rw [hcall] at hpublic
  obtain ⟨-, rfl⟩ := Move.call.inj hpublic
  obtain rfl := Option.some.inj hq
  have hlen : post.body.sinks.length = 1 := hcounts.sinks
  rw [hsi] at hlen
  cases hlen

/-- A call that redeems an item is no `to_private`. -/
theorem custodyStep_of_redeem (hso : post.body.sources = []) (hheld : s.Holds item)
    {v : AssetValue} (hsi : post.body.sinks = [v]) (hput : PutIn tr item v) :
    CustodyStep tr s m := by
  intro o' t encoded post' item' hpost' hitem'
  obtain rfl := Option.some.inj (hpost.symm.trans hpost')
  obtain rfl := Option.some.inj (hitem.symm.trans hitem')
  refine ⟨?_, fun _ => ⟨hheld, v, hsi, hput⟩⟩
  intro hprivate
  rw [hcall] at hprivate
  obtain ⟨-, rfl⟩ := Move.call.inj hprivate
  obtain rfl := Option.some.inj hq
  have hlen : post.body.sources.length = 1 := hcounts.sources
  rw [hso] at hlen
  cases hlen

end Call

/-- What an accepted post about an item does in an orderly move. -/
theorem Vault.paid (hR : R.Lawful) (h : Vault s tr) (hm : m.Orderly s)
    (hsound : ValuePreserving (tr ++ [(s, m)])) {o : Signer R} {call : Call R} {q : Posting R}
    {post : Config.TransferPost R.crypto.toFields} (hcall : m = .call (.signed o) call)
    (hq : call.posting o.account = some q) (hguard : call.Guard s) (hadmits : q.Admits s post)
    (hpost : m.accepted s = some post) (hreg : (m.next s).registry = s.registry)
    (hpaid : Paid s (m.next s) post.body) : Vault (m.next s) (tr ++ [(s, m)]) := by
  have hcounts := Call.guard_counts hq hguard hadmits.decoded
  have hunit : ∀ item, s.itemOf post = some item →
      (∀ v ∈ post.body.sources, ¬ s.Holds item ∧ v = nftAmount) ∧
        ∀ v ∈ post.body.sinks, v = nftAmount := by
    intro item hitem
    subst hcall
    exact hm.1 q post item hq hguard hadmits hitem
  have hk : s.KeepsMetadata (m.next s) := by
    intro id md hget
    rw [hreg]
    exact hget
  have hquiet : s.itemOf post = none → (∀ item, (m.next s).Holds item ↔ s.Holds item) →
      Vault (m.next s) (tr ++ [(s, m)]) := by
    intro hnone hs
    refine h.quiet hR ?_ hk hs
    intro post' hpost'
    obtain rfl := Option.some.inj (hpost.symm.trans hpost')
    exact hnone
  cases hpaid with
  | reshape hid hw =>
    refine hquiet ?_ (holds_of_world hw)
    rw [State.itemOf, State.metadataOf_none hid]
    rfl
  | mintToken hid htoken hso hsi hx hw =>
    exact hquiet (htoken.tokenOf hid).2 (holds_of_moved hw)
  | redeemToken hid htoken hso hsi hx hw =>
    exact hquiet (htoken.tokenOf hid).2 (holds_of_moved hw)
  | @mintItem a c i v hid hname hso hsi hw =>
    have hitem := (hname.itemOf hid).1
    obtain ⟨hout, rfl⟩ := (hunit _ hitem).1 v (by rw [hso]; exact List.mem_singleton_self v)
    obtain ⟨hin, hothers⟩ := holds_of_transfer hR hw
    have hstep : CustodyStep tr s m :=
      custodyStep_of_mint hcall hq hcounts hpost hitem hsi hout
    exact h.mint hR hpost hitem hreg hstep hothers hso hsi hout (hin.mpr rfl)
  | @redeemItem a c i x v hid hname hso hsi hx hw =>
    have hitem := (hname.itemOf hid).1
    obtain rfl := (hunit _ hitem).2 v (by rw [hsi]; exact List.mem_singleton_self v)
    obtain ⟨hin, hothers⟩ := holds_of_transfer hR hw
    obtain ⟨id, -, hb⟩ := h.backs hpost hitem hsound hso hsi
    have hheld : s.Holds (c, i) := hb.holds.mpr rfl
    have hstep := custodyStep_of_redeem hcall hq hcounts hpost hitem hso hheld hsi
      (h.putIn _ hheld)
    have hgone : ¬ (m.next s).Holds (c, i) := fun hheld' => hx (hin.mp hheld')
    exact h.redeem hR hpost hitem hreg hstep hsound hothers hso hsi hgone

theorem Vault.step (hR : R.Lawful) (h : Vault s tr) (hm : m.Orderly s)
    (hsound : ValuePreserving (tr ++ [(s, m)])) : Vault (m.next s) (tr ++ [(s, m)]) := by
  have hk : s.KeepsMetadata (m.next s) := by
    apply Move.keepsMetadata hR
    intro s' hm'
    subst hm'
    exact hm.2.1
  have hnone : m.accepted s = none → ∀ post, m.accepted s = some post → s.itemOf post = none := by
    intro hnone post hpost
    rw [hnone] at hpost
    cases hpost
  cases Move.effect hR s m with
  | outside hm' =>
    subst hm'
    exact h.quiet hR (hnone rfl) hk hm.2.2
  | idle hm' hfail hs =>
    subst hm'
    exact h.quiet hR (hnone (Move.accepted_of_fail hfail)) hk (holds_of_world (by rw [hs]))
  | posted hm' hq hguard hadmits hpost hreg hpaid =>
    exact h.paid hR hm hsound hm' hq hguard hadmits hpost hreg hpaid
  | @sentToken o asset sink w id md hsent hid hreg htoken hw =>
    have hworld : (m.next s).world = w := by rw [hsent.next]
    subst hworld
    exact h.quiet hR (hnone hsent.not_posted) hk (holds_of_moved hw)
  | @sentItem o asset sink w id c i md hsent hid hreg hitem howner hw =>
    have hworld : (m.next s).world = w := by rw [hsent.next]
    subst hworld
    have ⟨hin, hothers⟩ := holds_of_transfer hR hw
    have hsink : sink ≠ R.palletAccount := by
      have hmove := hsent.move
      subst hmove
      have hname : s.itemNamed asset = some (c, i) := by
        rw [State.itemNamed, hid, Option.bind_some, hreg]
        exact hitem
      have hcan := (hR.frame.uniquesTransfer_total _ _ _ _).mp ⟨_, hw⟩
      exact hm.2 asset sink (c, i) rfl hname howner hcan
    have hout : ¬ s.Holds (c, i) := by
      intro hheld
      exact o.ne_pallet (Option.some.inj (howner.symm.trans hheld))
    refine h.quiet hR (hnone hsent.not_posted) hk ?_
    intro item
    by_cases hne : item = (c, i)
    · rw [hne]
      exact iff_of_false (fun hheld => hsink (hin.mp hheld)) hout
    · exact hothers item hne

end Steps

section Runs
variable {s₀ s : State R} {tr : History R}

theorem run_vault (hR : R.Lawful) (h₀ : ∀ item, ¬ s₀.Holds item)
    (h : Run Move.next Move.Orderly s₀ tr s) (hsound : ValuePreserving tr) : Vault s tr := by
  induction h with
  | nil =>
    have hout : ∀ item, mintedItem s₀ item [] =
        redeemedItem s₀ item [] + if s₀.Holds item then nftAmount.toNat else 0 := by
      intro item
      rw [if_neg (h₀ item)]
      rfl
    have hreg : Registered s₀ [] := by
      intro post hpost
      cases hpost
    refine ⟨⟨.nil, hout⟩, hreg, fun item hin => absurd hin (h₀ item), fun item => ⟨none, ?_⟩⟩
    exact ⟨iff_of_false (h₀ item) (by simp), (by simp), fun id _ => rfl⟩
  | snoc _ hm ih =>
    have hpre : ValuePreserving _ :=
      fun tr₁ htr₁ => hsound tr₁ (htr₁.trans (List.prefix_append _ _))
    exact (ih hpre).step hR hm hsound

/-- In a history of orderly moves every item goes in from outside and leaves from inside with its
value, and one unit amount of private value stands for each item in the pool. -/
theorem custody (hR : R.Lawful) (h₀ : ∀ item, ¬ s₀.Holds item)
    (h : Run Move.next Move.Orderly s₀ tr s) (hsound : ValuePreserving tr) : Custody s tr :=
  (run_vault hR h₀ h hsound).toCustody

end Runs

section Witness
open Sample

/-- No posted id has paid out more than went in after any number of moves. -/
def keysCovered (tr : History R) : Bool :=
  tr.inits.all fun tr₁ => (posts tr₁).all fun post => (assetKey post).all fun id =>
    decide (redeemedAs id tr₁ ≤ mintedAs id tr₁)

theorem valuePreserving_of_keys {tr : History R} (h : keysCovered tr = true) :
    ValuePreserving tr := by
  intro tr₁ hpre id
  by_cases hid : ∃ post ∈ posts tr₁, assetKey post = some id
  · obtain ⟨post, hpost, hkey⟩ := hid
    have hmem : tr₁ ∈ tr.inits := (List.mem_inits tr₁ tr).mpr hpre
    have hcheck := List.all_eq_true.mp (List.all_eq_true.mp h tr₁ hmem) post hpost
    rw [hkey] at hcheck
    exact of_decide_eq_true hcheck
  · have hzero : redeemedAs id tr₁ = 0 :=
      tally_eq_zero _ fun post hpost hkey => hid ⟨post, hpost, hkey⟩
    omega

theorem start_holds (item : Item) : ¬ start.Holds item := by
  show ¬ (some 1 : Option ℕ) = some 0
  decide

/-- A call that posts no item, or the unit amount of one that the pallet does not own, is in
order. -/
theorem orderly_of_values {s : State runtime} {o : Signer runtime} {call : Call runtime}
    {q : Posting runtime} (hq : call.posting o.account = some q)
    (hso : ∀ b ∈ q.post.sources, (∀ post, q.Admits s post → s.itemOf post = none) ∨
      (∀ item, ¬ s.Holds item) ∧ assetValueDecode b = nftAmount)
    (hsi : ∀ b ∈ q.post.sinks, assetValueDecode b = nftAmount) :
    Move.Orderly s (.call (.signed o) call) := by
  constructor
  · intro q' post item hq' _ hadmits hitem
    obtain rfl := Option.some.inj (hq.symm.trans hq')
    have ⟨hsources, hsinks⟩ := TransferPost.tryInto_values hadmits.decoded
    rw [hsources, hsinks]
    constructor
    · intro v hv
      obtain ⟨b, hb, rfl⟩ := List.mem_map.mp hv
      rcases hso b hb with hnone | ⟨hout, hunit⟩
      · rw [hnone post hadmits] at hitem
        cases hitem
      · exact ⟨hout item, hunit⟩
    · intro v hv
      obtain ⟨b, hb, rfl⟩ := List.mem_map.mp hv
      exact hsi b hb
  · intro asset sink item hcall
    rw [hcall] at hq
    cases hq

theorem orderly_history : Run Move.next Move.Orderly start history final := by
  refine Run.play fun x hx => ?_
  simp only [trace, moves, List.mem_cons, List.not_mem_nil, or_false] at hx
  rcases hx with rfl | rfl | rfl | rfl
  · exact orderly_of_values rfl (fun b hb => .inr ⟨start_holds, by revert b; decide⟩)
      (fun b hb => by cases hb)
  · refine orderly_of_values rfl (fun b hb => .inl ?_) (fun b hb => by cases hb)
    intro post hadmits
    obtain ⟨a, ha⟩ : ∃ a, post.body.assetId = some a :=
      ⟨_, TransferPost.tryInto_assetId hadmits.decoded rfl (fpDecode_field 8)⟩
    obtain ⟨id, hid, -⟩ := hadmits.settles a ha
    exact (hid.tokenOf ha).2
  · exact orderly_of_values rfl (fun b hb => by cases hb) (fun b hb => by cases hb)
  · exact orderly_of_values rfl (fun b hb => by cases hb) (by decide)

theorem custody_sample : Custody final history :=
  custody runtime_lawful start_holds orderly_history
    (valuePreserving_of_keys (by decide +kernel))

/-- The owner mints an item, and then another account mints it again. -/
def doubleMint : List (Move runtime) :=
  [.call (.signed (signer 0)) (.toPrivate .nft (mint 9 nftAmount 10)),
    .call (.signed (signer 1)) (.toPrivate .nft (mint 9 nftAmount 11))]

def doubleHistory : History runtime := trace Move.next start doubleMint

def doubleFinal : State runtime := doubleMint.foldl Move.next start

theorem item_minted_twice : (∀ item, ¬ start.Holds item) ∧
    Run Move.next Move.Allowed start doubleHistory doubleFinal ∧ ValuePreserving doubleHistory ∧
    ¬ Custody doubleFinal doubleHistory := by
  refine ⟨start_holds, Run.play fun x hx => ?_, valuePreserving_of_keys (by decide +kernel), ?_⟩
  · simp only [trace, doubleMint, List.mem_cons, List.not_mem_nil, or_false] at hx
    rcases hx with rfl | rfl <;> trivial
  · intro h
    have hmint : mintedItem doubleFinal (1, 1) doubleHistory = 2 * nftAmount.toNat := by
      decide +kernel
    have hred : redeemedItem doubleFinal (1, 1) doubleHistory = 0 := by decide +kernel
    have hpos : 0 < nftAmount.toNat := by decide
    have hout := h.outstanding (1, 1)
    rw [hmint, hred] at hout
    split_ifs at hout <;> omega

end Witness

end ZkNft
