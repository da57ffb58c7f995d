import ZkNft.MantaPay.Admission
import ZkNft.MantaPay.History

/-! What each move of a history does to the public assets. -/

namespace ZkNft
open TransferLedger

variable {R : Runtime} {s s' : State R} {m : Move R}

/-- How the public value of an accepted post moved. -/
inductive Paid (s s' : State R) (body : Config.TransferPostBody R.crypto.toFields) : Prop where
  | reshape (hid : body.assetId = none) (hw : s'.world = s.world)
  | mintToken {a : R.crypto.Fp} {id : StandardAssetId} {x : R.Account} {v : AssetValue}
    (hid : body.assetId = some a) (htoken : FungibleId s a id) (hso : body.sources = [v])
    (hsi : body.sinks = []) (hx : x ≠ R.palletAccount)
    (hw : R.Moved s.world s'.world id x R.palletAccount v)
  | redeemToken {a : R.crypto.Fp} {id : StandardAssetId} {x : R.Account} {v : AssetValue}
    (hid : body.assetId = some a) (htoken : FungibleId s a id) (hso : body.sources = [])
    (hsi : body.sinks = [v]) (hx : x ≠ R.palletAccount)
    (hw : R.Moved s.world s'.world id R.palletAccount x v)
  | mintItem {a : R.crypto.Fp} {c i : StandardAssetId} {v : AssetValue}
    (hid : body.assetId = some a) (hitem : NonFungibleId s a c i) (hso : body.sources = [v])
    (hsi : body.sinks = []) (hw : R.uniquesTransfer s.world c i R.palletAccount = .ok s'.world)
  | redeemItem {a : R.crypto.Fp} {c i : StandardAssetId} {x : R.Account} {v : AssetValue}
    (hid : body.assetId = some a) (hitem : NonFungibleId s a c i) (hso : body.sources = [])
    (hsi : body.sinks = [v]) (hx : x ≠ R.palletAccount)
    (hw : R.uniquesTransfer s.world c i x = .ok s'.world)

section Update
variable {q : Posting R} {post : Config.TransferPost R.crypto.toFields} {a : R.crypto.Fp}
  {x : R.Account} {v : AssetValue}

theorem FungibleId.congr {id : StandardAssetId} (h : s'.registry = s.registry) :
    FungibleId s' a id ↔ FungibleId s a id := by
  simp only [FungibleId, getMetadata, h]

theorem NonFungibleId.congr {c i : StandardAssetId} (h : s'.registry = s.registry) :
    NonFungibleId s' a c i ↔ NonFungibleId s a c i := by
  simp only [NonFungibleId, getMetadata, h]

/-- The accounts and values of a post with one public value. -/
def OnePublic (q : Posting R) (body : Config.TransferPostBody R.crypto.toFields) (x : R.Account)
    (v : AssetValue) : Prop :=
  q.sources = [x] ∧ q.sinks = [] ∧ body.sources = [v] ∧ body.sinks = [] ∨
    q.sources = [] ∧ q.sinks = [x] ∧ body.sources = [] ∧ body.sinks = [v]

theorem FTTransferLedger.moved {s₁ : State R} (hR : R.Lawful) (hreg : s₁.registry = s.registry)
    (hworld : s₁.world = s.world) (hone : OnePublic q post.body x v)
    (h : FTTransferLedger.updatePublicBalances R a (q.sources.zip post.body.sources)
      (q.sinks.zip post.body.sinks) s₁ = (.ok ⟨⟩, { s₁ with world := s'.world })) :
    ∃ id, FungibleId s a id ∧
      (q.sources = [x] ∧ q.sinks = [] ∧ post.body.sources = [v] ∧ post.body.sinks = [] ∧
          R.Moved s.world s'.world id x R.palletAccount v ∨
        q.sources = [] ∧ q.sinks = [x] ∧ post.body.sources = [] ∧ post.body.sinks = [v] ∧
          R.Moved s.world s'.world id R.palletAccount x v) := by
  rcases hone with ⟨hqso, hqsi, hso, hsi⟩ | ⟨hqso, hqsi, hso, hsi⟩
  · rw [hqso, hqsi, hso, hsi] at h
    obtain ⟨id, w, hid, -, hw, hs⟩ := (updatePublicBalances_one (.inl ⟨rfl, rfl⟩)).mp h
    obtain rfl : s'.world = w := congrArg State.world hs
    rw [if_neg (List.cons_ne_nil _ _), hworld] at hw
    have hmoved := hR.frame.transfer_moved _ _ _ _ _ _ hw
    exact ⟨id, (FungibleId.congr hreg).mp hid, .inl ⟨hqso, hqsi, hso, hsi, hmoved⟩⟩
  · rw [hqso, hqsi, hso, hsi] at h
    obtain ⟨id, w, hid, -, hw, hs⟩ := (updatePublicBalances_one (.inr ⟨rfl, rfl⟩)).mp h
    obtain rfl : s'.world = w := congrArg State.world hs
    rw [if_pos rfl, hworld] at hw
    have hmoved := hR.frame.transfer_moved _ _ _ _ _ _ hw
    exact ⟨id, (FungibleId.congr hreg).mp hid, .inr ⟨hqso, hqsi, hso, hsi, hmoved⟩⟩

theorem FTTransferLedger.paid {s₁ : State R} (hR : R.Lawful) (hreg : s₁.registry = s.registry)
    (hworld : s₁.world = s.world) (ha : post.body.assetId = some a) (hx : x ≠ R.palletAccount)
    (hone : OnePublic q post.body x v)
    (h : FTTransferLedger.updatePublicBalances R a (q.sources.zip post.body.sources)
      (q.sinks.zip post.body.sinks) s₁ = (.ok ⟨⟩, { s₁ with world := s'.world })) :
    Paid s s' post.body := by
  obtain ⟨id, hid, ⟨-, -, hso, hsi, hw⟩ | ⟨-, -, hso, hsi, hw⟩⟩ := moved hR hreg hworld hone h
  · exact .mintToken ha hid hso hsi hx hw
  · exact .redeemToken ha hid hso hsi hx hw

theorem NFTTransferLedger.paid {s₁ : State R} (hreg : s₁.registry = s.registry)
    (hworld : s₁.world = s.world) (ha : post.body.assetId = some a) (hx : x ≠ R.palletAccount)
    (hone : OnePublic q post.body x v)
    (h : NFTTransferLedger.updatePublicBalances R a (q.sources.zip post.body.sources)
      (q.sinks.zip post.body.sinks) s₁ = (.ok ⟨⟩, { s₁ with world := s'.world })) :
    Paid s s' post.body := by
  rcases hone with ⟨hqso, hqsi, hso, hsi⟩ | ⟨hqso, hqsi, hso, hsi⟩
  · rw [hqso, hqsi, hso, hsi] at h
    obtain ⟨c, i, w, hid, hw, hs⟩ := (updatePublicBalances_one (.inl ⟨rfl, rfl⟩)).mp h
    obtain rfl : s'.world = w := congrArg State.world hs
    rw [if_neg (List.cons_ne_nil _ _), hworld] at hw
    exact .mintItem ha ((NonFungibleId.congr hreg).mp hid) hso hsi hw
  · rw [hqso, hqsi, hso, hsi] at h
    obtain ⟨c, i, w, hid, hw, hs⟩ := (updatePublicBalances_one (.inr ⟨rfl, rfl⟩)).mp h
    obtain rfl : s'.world = w := congrArg State.world hs
    rw [if_pos rfl, hworld] at hw
    exact .redeemItem ha ((NonFungibleId.congr hreg).mp hid) hso hsi hx hw

theorem Posted.paid (hR : R.Lawful) (h : Posted q s s' post) (hq : q.Proper post.body) :
    Paid s s' post.body := by
  have hbal := h.balances
  cases ha : post.body.assetId with
  | none =>
    simp only [ha] at hbal
    exact .reshape ha hbal
  | some a =>
    simp only [ha] at hbal
    obtain ⟨s₁, hreg, hworld, hupd⟩ := hbal
    obtain ⟨x, v, hx, -, hone⟩ := h.checked.one hq ha
    cases ht : q.assetType with
    | ft =>
      rw [ht] at hupd
      exact FTTransferLedger.paid hR hreg hworld ha hx hone hupd
    | pft =>
      rw [ht] at hupd
      exact FTTransferLedger.paid hR hreg hworld ha hx hone hupd
    | nft =>
      rw [ht] at hupd
      exact NFTTransferLedger.paid hreg hworld ha hx hone hupd
    | sbt =>
      rw [ht] at hupd
      exact NFTTransferLedger.paid hreg hworld ha hx hone hupd

end Update

/-- A successful public transfer of `asset` to `sink` by `o`, that leaves the assets at `w`. -/
structure Sent (s : State R) (m : Move R) (o : Signer R) (asset : Asset) (sink : R.Account)
    (w : R.World) : Prop where
  move : m = .call (.signed o) (.publicTransfer asset sink)
  accepted : (Pallet.publicTransfer (.signed o) asset sink s).1 = .ok ⟨⟩
  next : m.next s = { s with
    world := w
    events := s.events ++ [.transfer asset o.account sink] }

/-- What a move of a history does. -/
inductive Effect (s : State R) (m : Move R) : Prop where
  | outside {s' : State R} (hm : m = .other s')
  | idle {origin : Origin R} {call : Call R} (hm : m = .call origin call)
    (hfail : ∀ u, (call.dispatch origin s).1 ≠ .ok u) (hs : m.next s = s)
  | posted {o : Signer R} {call : Call R} {q : Posting R}
    {post : Config.TransferPost R.crypto.toFields} (hm : m = .call (.signed o) call)
    (hq : call.posting o.account = some q) (hguard : call.Guard s) (hadmits : q.Admits s post)
    (hpost : m.accepted s = some post) (hreg : (m.next s).registry = s.registry)
    (hpaid : Paid s (m.next s) post.body)
  | sentToken {o : Signer R} {asset : Asset} {sink : R.Account} {w : R.World}
    {id : StandardAssetId} {metadata : AssetStorageMetadata R.Account}
    (h : Sent s m o asset sink w) (hid : idFromField asset.id = some id)
    (hreg : s.registry.get id = some metadata) (htoken : metadata.isFungible = true)
    (hw : R.Moved s.world w id o.account sink (assetValueDecode asset.value))
  | sentItem {o : Signer R} {asset : Asset} {sink : R.Account} {w : R.World}
    {id c i : StandardAssetId} {metadata : AssetStorageMetadata R.Account}
    (h : Sent s m o asset sink w) (hid : idFromField asset.id = some id)
    (hreg : s.registry.get id = some metadata) (hitem : metadata.getNonFungibleId = some (c, i))
    (howner : R.uniquesOwner s.world c i = some o.account)
    (hw : R.uniquesTransfer s.world c i sink = .ok w)

theorem Move.effect (hR : R.Lawful) (s : State R) (m : Move R) : Effect s m := by
  cases m with
  | other s' => exact .outside rfl
  | call origin c =>
    by_cases hfail : ∀ u, (c.dispatch origin s).1 ≠ .ok u
    · exact .idle rfl hfail (Call.dispatch_rollback hfail)
    simp only [not_forall, not_not] at hfail
    obtain ⟨⟨⟩, hok⟩ := hfail
    obtain ⟨o, rfl⟩ : ∃ o, origin = .signed o := by
      by_contra hsigned
      rw [Call.dispatch_unsigned fun o ho => hsigned ⟨o, ho⟩] at hok
      cases hok
    have hrun := Tx.run_of_fst hok
    cases hq : c.posting o.account with
    | some q =>
      obtain ⟨hg, post, hp⟩ := Call.dispatch_posted hq hrun
      have hpost : Move.accepted s (.call (.signed o) c) = some post := by
        simp only [Move.accepted, hok, hq, Option.bind_some, hp.decoded]
        rfl
      obtain ⟨_, post', hadmits⟩ := (Call.accepted_iff hR hq).mp ⟨_, _, hrun⟩
      obtain rfl := Except.ok.inj (hadmits.decoded.symm.trans hp.decoded)
      exact .posted rfl hq hg hadmits hpost hp.registry
        (hp.paid hR (Call.guard_proper hq hg hp.decoded))
    | none =>
      cases c with
      | publicTransfer asset sink =>
        obtain ⟨id, md, w, hid, hmd, hs, hmove⟩ := Pallet.publicTransfer_run_ok hrun
        have hsent : Sent s (.call (.signed o) (.publicTransfer asset sink)) o asset sink w :=
          ⟨rfl, hok, hs⟩
        rcases hmove with ⟨htoken, -, hw⟩ | ⟨-, c, i, hitem, howner, hw⟩
        · exact .sentToken hsent hid hmd htoken (hR.frame.transfer_moved _ _ _ _ _ _ hw)
        · exact .sentItem hsent hid hmd hitem howner hw
      | toPrivate t post => cases hq
      | toPublic t post => cases hq
      | privateTransfer t post => cases hq
      | privateTransferAsset id t zk post => cases hq

end ZkNft
