import ZkNft.MantaPay.Effects

/-! What the accepted posts of a history add up to, sorted by the assets that the registry says
they move. -/

namespace ZkNft
open TransferLedger

variable {R : Runtime}

def total (values : List AssetValue) : ℕ := (values.map BitVec.toNat).sum

section Tally
variable (p : Config.TransferPost R.crypto.toFields → Prop) [DecidablePred p]
  (values : Config.TransferPostBody R.crypto.toFields → List AssetValue) {tr : History R}

/-- The public values of the accepted posts with `p`. -/
def tally (tr : History R) : ℕ :=
  (((posts tr).filter p).map fun post => total (values post.body)).sum

/-- The public values that one post adds. -/
def share (post : Config.TransferPost R.crypto.toFields) : ℕ :=
  if p post then total (values post.body) else 0

theorem tally_snoc (x : State R × Move R) :
    tally p values (tr ++ [x]) =
      tally p values tr + (x.2.accepted x.1).elim 0 (share p values) := by
  rw [tally, posts_append, List.filter_append, List.map_append, List.sum_append]
  cases h : x.2.accepted x.1 with
  | none => simp [posts, h, tally]
  | some post => by_cases hp : p post <;> simp [posts, h, tally, share, hp]

variable {p}

theorem tally_congr {p' : Config.TransferPost R.crypto.toFields → Prop} [DecidablePred p']
    (h : ∀ post ∈ posts tr, p post ↔ p' post) : tally p values tr = tally p' values tr := by
  have hfilter : (posts tr).filter p = (posts tr).filter p' := by
    apply List.filter_congr
    intro post hpost
    simp only [h post hpost]
  rw [tally, hfilter, tally]

theorem tally_eq_zero (h : ∀ post ∈ posts tr, ¬ p post) : tally p values tr = 0 := by
  have hnil : (posts tr).filter p = [] :=
    List.filter_eq_nil_iff.mpr fun post hpost => by simpa using h post hpost
  rw [tally, hnil]
  rfl

end Tally

/-- The registered id that a post carries. -/
def assetKey (post : Config.TransferPost R.crypto.toFields) : Option StandardAssetId :=
  post.body.assetId.bind fun a => (fpEncode (F := R.crypto.toFields) a).toOption.bind idFromField

def State.metadataOf (s : State R) (post : Config.TransferPost R.crypto.toFields) :
    Option (AssetStorageMetadata R.Account) :=
  (assetKey post).bind s.registry.get

/-- The token a post moves. -/
def State.tokenOf (s : State R) (post : Config.TransferPost R.crypto.toFields) :
    Option StandardAssetId :=
  (s.metadataOf post).bind AssetStorageMetadata.getFungibleId

/-- The item a post moves. -/
def State.itemOf (s : State R) (post : Config.TransferPost R.crypto.toFields) :
    Option (StandardAssetId × StandardAssetId) :=
  (s.metadataOf post).bind AssetStorageMetadata.getNonFungibleId

/-- Every registered asset keeps its metadata. -/
def State.KeepsMetadata (s s' : State R) : Prop :=
  ∀ id metadata, s.registry.get id = some metadata → s'.registry.get id = some metadata

/-- The id of a post is registered. -/
def State.Registers (s : State R) (post : Config.TransferPost R.crypto.toFields) : Prop :=
  ∀ id, assetKey post = some id → (s.registry.get id).isSome = true

section Metadata
variable {s s' : State R} {m : Move R} {post : Config.TransferPost R.crypto.toFields}
  {a : R.crypto.Fp} {id c i : StandardAssetId}

theorem getMetadata_eq_ok {metadata : AssetStorageMetadata R.Account}
    (ha : post.body.assetId = some a) (h : getMetadata s a = .ok metadata) :
    ∃ id, assetKey post = some id ∧ s.registry.get id = some metadata := by
  simp only [getMetadata, Exec.except_bind_eq_ok, Exec.except_mapError_eq_ok] at h
  obtain ⟨b, hb, id, hid, hmd⟩ := h
  have hid' : idFromField b = some id := by
    cases hf : idFromField b with
    | none => simp [hf] at hid
    | some id' =>
      rw [hf] at hid
      exact congrArg some (Except.ok.inj hid)
  have hmd' : s.registry.get id = some metadata := by
    cases hf : s.registry.get id with
    | none => simp [hf] at hmd
    | some metadata' =>
      rw [hf] at hmd
      exact congrArg some (Except.ok.inj hmd)
  refine ⟨id, ?_, hmd'⟩
  rw [assetKey, ha, Option.bind_some, hb]
  exact hid'

theorem State.metadataOf_eq {metadata : AssetStorageMetadata R.Account}
    (ha : post.body.assetId = some a) (h : getMetadata s a = .ok metadata) :
    s.metadataOf post = some metadata := by
  obtain ⟨id, hkey, hget⟩ := getMetadata_eq_ok ha h
  rw [State.metadataOf, hkey]
  exact hget

theorem FungibleId.tokenOf (h : FungibleId s a id) (ha : post.body.assetId = some a) :
    s.tokenOf post = some id ∧ s.itemOf post = none := by
  obtain ⟨md, hmd, hid⟩ := h
  rw [State.tokenOf, State.itemOf, State.metadataOf_eq ha hmd]
  cases md with
  | fungible data => exact ⟨hid, rfl⟩
  | nonFungible data => cases hid
  | sbt data => cases hid

theorem NonFungibleId.itemOf (h : NonFungibleId s a c i) (ha : post.body.assetId = some a) :
    s.itemOf post = some (c, i) ∧ s.tokenOf post = none := by
  obtain ⟨md, hmd, hid⟩ := h
  rw [State.tokenOf, State.itemOf, State.metadataOf_eq ha hmd]
  cases md with
  | fungible data => cases hid
  | nonFungible data => exact ⟨hid, rfl⟩
  | sbt data => exact ⟨hid, rfl⟩

theorem State.metadataOf_none (h : post.body.assetId = none) : s.metadataOf post = none := by
  rw [State.metadataOf, assetKey, h]
  rfl

/-- A registered post keeps its metadata. -/
theorem State.KeepsMetadata.metadataOf (hk : s.KeepsMetadata s') (h : s.Registers post) :
    s'.metadataOf post = s.metadataOf post := by
  unfold State.metadataOf
  cases hkey : assetKey post with
  | none => rfl
  | some id =>
    obtain ⟨md, hmd⟩ := Option.isSome_iff_exists.mp (h id hkey)
    rw [Option.bind_some, Option.bind_some, hmd, hk id md hmd]

theorem State.KeepsMetadata.registers (hk : s.KeepsMetadata s') (h : s.Registers post) :
    s'.Registers post := by
  intro id hkey
  obtain ⟨md, hmd⟩ := Option.isSome_iff_exists.mp (h id hkey)
  rw [hk id md hmd]
  rfl

theorem Paid.registers (h : Paid s s' post.body) : s.Registers post := by
  have hget : ∀ {a md}, post.body.assetId = some a → getMetadata s a = .ok md →
      s.Registers post := by
    intro a md ha hmd id hkey
    obtain ⟨id', hkey', hget⟩ := getMetadata_eq_ok ha hmd
    obtain rfl := Option.some.inj (hkey.symm.trans hkey')
    rw [hget]
    rfl
  cases h with
  | reshape hid =>
    intro id hkey
    rw [assetKey, hid] at hkey
    cases hkey
  | mintToken hid htoken | redeemToken hid htoken =>
    obtain ⟨md, hmd, -⟩ := htoken
    exact hget hid hmd
  | mintItem hid hitem | redeemItem hid hitem =>
    obtain ⟨md, hmd, -⟩ := hitem
    exact hget hid hmd

theorem Move.accepted_of_fail {origin : Origin R} {call : Call R}
    (h : ∀ u, (call.dispatch origin s).1 ≠ .ok u) : (Move.call origin call).accepted s = none := by
  cases origin with
  | root => rfl
  | none => rfl
  | signed o =>
    cases hr : (call.dispatch (.signed o) s).1 with
    | ok u => exact absurd hr (h u)
    | err e => simp only [Move.accepted, hr]
    | trap t => simp only [Move.accepted, hr]

theorem Sent.not_posted {o : Signer R} {asset : Asset} {sink : R.Account} {w : R.World}
    (h : Sent s m o asset sink w) : m.accepted s = none := by
  rw [h.move]
  simp [Move.accepted, Call.dispatch, h.accepted, Call.posting]

/-- The post of an accepted call is registered. -/
theorem Move.registers (hR : R.Lawful) (h : m.accepted s = some post) : s.Registers post := by
  cases Move.effect hR s m with
  | outside hm =>
    subst hm
    cases h
  | idle hm hfail _ =>
    subst hm
    rw [Move.accepted_of_fail hfail] at h
    cases h
  | posted _ _ _ _ hpost _ hpaid =>
    obtain rfl := Option.some.inj (hpost.symm.trans h)
    exact hpaid.registers
  | sentToken hsent | sentItem hsent =>
    rw [hsent.not_posted] at h
    cases h

/-- Calls change no metadata. -/
theorem Move.keepsMetadata (hR : R.Lawful)
    (hm : ∀ s', m = .other s' → s.KeepsMetadata s') : s.KeepsMetadata (m.next s) := by
  have hsame : (m.next s).registry = s.registry → s.KeepsMetadata (m.next s) := by
    intro h id md hget
    rw [h]
    exact hget
  cases Move.effect hR s m with
  | @outside s' hm' =>
    have hkeep := hm s' hm'
    subst hm'
    exact hkeep
  | idle _ _ hs => exact hsame (by rw [hs])
  | posted _ _ _ _ _ hreg _ => exact hsame hreg
  | sentToken h => exact hsame (by rw [h.next])
  | sentItem h => exact hsame (by rw [h.next])

/-- The accepted posts of a history are registered. -/
def Registered (s : State R) (tr : History R) : Prop := ∀ post ∈ posts tr, s.Registers post

theorem Registered.snoc {tr : History R} (hR : R.Lawful) (h : Registered s tr) :
    Registered s (tr ++ [(s, m)]) := by
  intro post hpost
  rw [posts_append, List.mem_append] at hpost
  rcases hpost with hpost | hpost
  · exact h post hpost
  · simp only [posts, List.filterMap_cons, List.filterMap_nil] at hpost
    cases ha : m.accepted s with
    | none => simp [ha] at hpost
    | some post' =>
      simp only [ha, List.mem_singleton] at hpost
      exact hpost ▸ Move.registers hR ha

theorem Registered.keep {tr : History R} (h : Registered s tr) (hk : s.KeepsMetadata s') :
    Registered s' tr :=
  fun post hpost => hk.registers (h post hpost)

/-- The tally of registered posts stays the same when it is sorted by later metadata. -/
theorem Registered.tally_keep {β : Type} [DecidableEq β] {tr : History R} (h : Registered s tr)
    (hk : s.KeepsMetadata s') (f : AssetStorageMetadata R.Account → Option β) (b : β)
    (values : Config.TransferPostBody R.crypto.toFields → List AssetValue) :
    tally (fun post => (s'.metadataOf post).bind f = some b) values tr =
      tally (fun post => (s.metadataOf post).bind f = some b) values tr := by
  apply tally_congr
  intro post hpost
  rw [hk.metadataOf (h post hpost)]

end Metadata

end ZkNft
