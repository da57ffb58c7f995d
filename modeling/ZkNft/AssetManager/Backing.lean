import ZkNft.AssetManager.Coherence
import ZkNft.AssetManager.Sample

/-! What backs an asset id: the token or item that its metadata names. -/

namespace ZkNft

/-- A token of the unified fungible ledger: the native currency or one of pallet-assets. -/
inductive Token where
  | native
  | asset (id : StandardAssetId)
  deriving DecidableEq

/-- The token that the unified ledger takes an id for. -/
def Frame.tokenNamed (F : Frame) (id : StandardAssetId) : Token :=
  if id = F.nativeAssetId then .native else .asset id

theorem Frame.tokenNamed_inj {F : Frame} {id id' : StandardAssetId} :
    F.tokenNamed id = F.tokenNamed id' ↔ id = id' := by
  unfold Frame.tokenNamed
  constructor
  · intro h
    split_ifs at h with hid hid'
    · rw [hid, hid']
    · exact Token.asset.inj h
  · rintro rfl
    rfl

/-- The token that `to_private` and `to_public` move for asset `a`. -/
def Frame.privateToken {F : Frame}
    (registry : StorageMap StandardAssetId (AssetStorageMetadata F.Account))
    (a : StandardAssetId) : Option Token :=
  ((registry.get a).bind AssetStorageMetadata.getFungibleId).map F.tokenNamed

/-- The token that `public_transfer` moves for asset `a`. -/
def Frame.publicToken (F : Frame) (a : StandardAssetId) : Token := F.tokenNamed a

namespace AssetManager
open StorageMap

variable {R : Runtime} {startId : StandardAssetId} {s s' : State R} {m : Move R}
  {a : StandardAssetId} {tr : History R}

section Tokens

/-- `t` was created in pallet-assets by the move that registered asset `a`. -/
def CreatedFor (startId : StandardAssetId) (tr : History R) (a : StandardAssetId) (t : Token) :
    Prop :=
  ∃ x ∈ tr, ¬ x.1.Registers startId a ∧ (x.2.next x.1).Registers startId a ∧ ∃ id, t = .asset id ∧
    R.assetExists x.1.world id = false ∧ R.assetExists (x.2.next x.1).world id = true

/-- Every operation on a fungible asset works on the one token that was created for it. -/
def OneToken (startId : StandardAssetId) (tr : History R) (s : State R) : Prop :=
  ∀ a data, s.assetIdMetadata.get a = some (.fungible data) →
    Frame.privateToken s.assetIdMetadata a = some (R.publicToken a) ∧
    (a ≠ R.nativeAssetId → ∀ t, CreatedFor startId tr a t ↔ t = R.publicToken a) ∧
    (a = R.nativeAssetId → R.publicToken a = .native)

/-- The metadata that a call stores if it succeeds, and the asset it is stored for. -/
def Call.metadata (s : State R) : Call R → Option (StandardAssetId × R.Metadata)
  | .registerAsset _ metadata => some (s.nextAssetId, metadata)
  | .forceRegisterAsset _ metadata => some (s.nextAssetId, metadata)
  | .forceUpdateAssetMetadata a metadata => some (a, metadata)
  | .updateAssetLocation _ _ => none
  | .setUnitsPerSecond _ _ => none
  | .forceMintAsset _ _ _ => none
  | .setMinXcmFee _ _ => none

/-- The move is an accepted call that stores `metadata` for asset `a`. -/
def Move.Stores (s : State R) (m : Move R) (a : StandardAssetId) (metadata : R.Metadata) : Prop :=
  ∃ origin c, m = .call origin c ∧ c.Accepted s origin ∧ c.metadata s = some (a, metadata)

/-- The metadata that a call registers a new asset with. -/
def Call.registered : Call R → Option R.Metadata
  | .registerAsset _ metadata => some metadata
  | .forceRegisterAsset _ metadata => some metadata
  | .forceUpdateAssetMetadata _ _ => none
  | .updateAssetLocation _ _ => none
  | .setUnitsPerSecond _ _ => none
  | .forceMintAsset _ _ _ => none
  | .setMinXcmFee _ _ => none

/-- The move is an accepted call that registers asset `a` with fungible metadata. -/
def Move.RegistersFungible (s : State R) (m : Move R) (a : StandardAssetId) : Prop :=
  ∃ origin c data, m = .call origin c ∧ c.Accepted s origin ∧
    c.registered = some (.fungible data) ∧ s.nextAssetId = a

/-- Asset `a` was registered with fungible metadata. -/
def RegisteredFungible (tr : History R) (a : StandardAssetId) : Prop :=
  ∃ x ∈ tr, x.2.RegistersFungible x.1 a

/-- Fungible metadata that an accepted call stores names the asset it is stored for, which was
registered with fungible metadata, by this call or before. -/
def NamesItself (tr : History R) (s : State R) (m : Move R) : Prop :=
  ∀ a data, m.Stores s a (.fungible data) →
    data.assetId = a ∧ RegisteredFungible (tr ++ [(s, m)]) a

/-- The metadata of a fungible asset names that asset, which was registered as a fungible one. -/
def SelfNamed (tr : History R) (s : State R) : Prop :=
  ∀ a data, s.assetIdMetadata.get a = some (.fungible data) →
    data.assetId = a ∧ (a ≠ R.nativeAssetId → RegisteredFungible tr a)

theorem Move.stores_call {origin : Origin R} {c : Call R} {metadata metadata' : R.Metadata}
    {b : StandardAssetId} (hok : c.Accepted s origin) (hc : c.metadata s = some (a, metadata)) :
    (Move.call origin c).Stores s b metadata' ↔ b = a ∧ metadata' = metadata := by
  constructor
  · rintro ⟨_, _, heq, -, hb⟩
    cases heq
    rw [hc] at hb
    cases hb
    exact ⟨rfl, rfl⟩
  · rintro ⟨rfl, rfl⟩
    exact ⟨origin, c, rfl, hok, hc⟩

/-- A move writes the metadata of the one asset it stores metadata for, or none. -/
theorem Effect.stores (he : Effect s m s') :
    ((∀ a metadata, ¬ m.Stores s a metadata) ∧ s'.assetIdMetadata = s.assetIdMetadata) ∨
      ∃ a metadata, (∀ b metadata', m.Stores s b metadata' ↔ b = a ∧ metadata' = metadata) ∧
        (a = s.nextAssetId ∨ a ≠ R.nativeAssetId) ∧
        s'.assetIdMetadata = s.assetIdMetadata.insert a metadata := by
  cases he with
  | kept hsame hm =>
    refine .inl ⟨?_, hsame.assetIdMetadata⟩
    rintro a metadata ⟨origin, c, rfl, hok, hc⟩
    refine hm origin c rfl ?_ hok
    cases c with
    | registerAsset | forceRegisterAsset | updateAssetLocation | forceUpdateAssetMetadata => trivial
    | setUnitsPerSecond | forceMintAsset | setMinXcmFee => cases hc
  | relocated _ _ _ =>
    refine .inl ⟨?_, rfl⟩
    rintro a metadata ⟨origin, c, heq, -, hc⟩
    cases heq
    cases hc
  | registered hok _ _ _ | forceRegistered hok _ _ _ =>
    exact .inr ⟨_, _, fun _ _ => Move.stores_call hok rfl, .inl rfl, rfl⟩
  | updated hok hne _ _ =>
    exact .inr ⟨_, _, fun _ _ => Move.stores_call hok rfl, .inr hne, rfl⟩

theorem RegisteredFungible.snoc (h : RegisteredFungible tr a) (x : State R × Move R) :
    RegisteredFungible (tr ++ [x]) a := by
  obtain ⟨y, hy, hreg⟩ := h
  exact ⟨y, List.mem_append_left _ hy, hreg⟩

/-- Fungible assets stay self-named exactly if the metadata that is stored names its asset. -/
theorem Effect.keeps_selfNamed_iff (hcoherent : Coherent startId s) (h : SelfNamed tr s)
    (he : Effect s m s') : SelfNamed (tr ++ [(s, m)]) s' ↔ NamesItself tr s m := by
  have hkept : ∀ a data, s.assetIdMetadata.get a = some (.fungible data) → data.assetId = a ∧
      (a ≠ R.nativeAssetId → RegisteredFungible (tr ++ [(s, m)]) a) := by
    intro a data ha
    obtain ⟨hname, hreg⟩ := h a data ha
    exact ⟨hname, fun hne => (hreg hne).snoc _⟩
  rcases he.stores with ⟨hnone, hs⟩ | ⟨a, metadata, hstores, ha, hs⟩
  · refine iff_of_true ?_ fun a data hdata => absurd hdata (hnone _ _)
    unfold SelfNamed
    rw [hs]
    exact hkept
  · have hne : a ≠ R.nativeAssetId := by
      rcases ha with rfl | ha
      · exact fun heq => hcoherent.next_fresh (.inl heq)
      · exact ha
    unfold SelfNamed NamesItself
    simp only [hs, hstores]
    constructor
    · rintro hself b data ⟨rfl, rfl⟩
      obtain ⟨hname, hreg⟩ := hself b data (get_insert_self _ _ _)
      exact ⟨hname, hreg hne⟩
    · intro hnew b data hb
      rw [get_insert] at hb
      split_ifs at hb with hba
      · obtain ⟨hname, hreg⟩ := hnew b data ⟨hba, (Option.some.inj hb).symm⟩
        exact ⟨hname, fun _ => hreg⟩
      · exact hkept b data hb

theorem SelfNamed.genesis (world : R.World) :
    SelfNamed [] (State.genesis startId world : State R) := by
  intro a data ha
  simp only [State.genesis, get_insert, get_empty] at ha
  split_ifs at ha with hid
  have heq := Option.some.inj ha
  rw [Runtime.nativeAssetMetadata, AssetStorageMetadata.fungible.injEq] at heq
  exact ⟨by rw [hid, ← heq], fun hne => absurd hid hne⟩

theorem assetExists_added {w w' : R.World} {id : StandardAssetId}
    (hfree : R.assetExists w a = false)
    (h : R.assetExists w' id = true ↔ id = a ∨ R.assetExists w id = true) :
    (R.assetExists w id = false ∧ R.assetExists w' id = true) ↔ id = a := by
  rw [h]
  constructor
  · rintro ⟨hnew, hid | hid⟩
    · exact hid
    · rw [hnew] at hid
      cases hid
  · rintro rfl
    exact ⟨hfree, .inl rfl⟩

theorem assetExists_same {w : R.World} {id : StandardAssetId} :
    ¬ (R.assetExists w id = false ∧ R.assetExists w id = true) := by
  rintro ⟨hnew, hid⟩
  rw [hnew] at hid
  cases hid

/-- A registration creates the token of the new id, if its metadata is fungible, and no other. -/
theorem MantaAssetRegistry.createAsset_creates (hR : R.Lawful) {w w' : R.World}
    {who admin : R.Account} {metadata : R.Metadata}
    (h : MantaAssetRegistry.createAsset R w who a admin metadata = .ok w')
    (id : StandardAssetId) :
    (R.assetExists w id = false ∧ R.assetExists w' id = true) ↔
      id = a ∧ ∃ data, metadata = .fungible data := by
  cases metadata with
  | fungible data =>
    rw [MantaAssetRegistry.createAsset, Exec.except_bind_eq_ok] at h
    obtain ⟨w₁, hcreate, hset⟩ := h
    obtain ⟨hfree, hall⟩ := hR.create_exists _ _ _ _ _ _ hcreate
    have hexists : R.assetExists w' id = true ↔ id = a ∨ R.assetExists w id = true := by
      rw [hR.setMetadata_exists _ _ _ _ _ _ _ hset, hall]
    exact (assetExists_added hfree hexists).trans (and_iff_left ⟨data, rfl⟩).symm
  | nonFungible | sbt =>
    obtain rfl := Except.ok.inj h
    apply iff_of_false assetExists_same
    rintro ⟨-, data, hdata⟩
    cases hdata

theorem MantaAssetRegistry.forceCreateAsset_creates (hR : R.Lawful) {w w' : R.World}
    {metadata : R.Metadata} (h : MantaAssetRegistry.forceCreateAsset R w a metadata = .ok w')
    (id : StandardAssetId) :
    (R.assetExists w id = false ∧ R.assetExists w' id = true) ↔
      id = a ∧ ∃ data, metadata = .fungible data := by
  cases metadata with
  | fungible data =>
    rw [MantaAssetRegistry.forceCreateAsset, Exec.except_bind_eq_ok] at h
    obtain ⟨w₁, hcreate, hset⟩ := h
    obtain ⟨hfree, hall⟩ := hR.forceCreate_exists _ _ _ _ _ _ hcreate
    have hexists : R.assetExists w' id = true ↔ id = a ∨ R.assetExists w id = true := by
      rw [hR.forceSetMetadata_exists _ _ _ _ _ _ _ hset, hall]
    exact (assetExists_added hfree hexists).trans (and_iff_left ⟨data, rfl⟩).symm
  | nonFungible | sbt =>
    obtain rfl := Except.ok.inj h
    apply iff_of_false assetExists_same
    rintro ⟨-, data, hdata⟩
    cases hdata

theorem Move.registersFungible_call {origin : Origin R} {c : Call R} (hok : c.Accepted s origin) :
    (Move.call origin c).RegistersFungible s a ↔
      (∃ data, c.registered = some (.fungible data)) ∧ s.nextAssetId = a := by
  constructor
  · rintro ⟨_, _, data, heq, -, hdata, ha⟩
    cases heq
    exact ⟨⟨data, hdata⟩, ha⟩
  · rintro ⟨⟨data, hdata⟩, ha⟩
    exact ⟨origin, c, data, rfl, hok, hdata, ha⟩

/-- A move registers nothing, or the next asset, whose token it creates if the metadata is
fungible. -/
theorem Effect.registers (hR : R.Lawful) (he : Effect s m s') :
    (s'.nextAssetId = s.nextAssetId ∧ ∀ a, ¬ m.RegistersFungible s a) ∨
      s.nextAssetId ≠ BitVec.allOnes 128 ∧ s'.nextAssetId = s.nextAssetId + 1 ∧ ∀ a id,
        m.RegistersFungible s a ∧ id = s.nextAssetId ↔ s.nextAssetId = a ∧
          R.assetExists s.world id = false ∧ R.assetExists s'.world id = true := by
  cases he with
  | kept hsame hm =>
    refine .inl ⟨hsame.nextAssetId, ?_⟩
    rintro a ⟨origin, c, data, rfl, hok, hdata, -⟩
    refine hm origin c rfl ?_ hok
    cases c with
    | registerAsset | forceRegisterAsset | updateAssetLocation | forceUpdateAssetMetadata => trivial
    | setUnitsPerSecond | forceMintAsset | setMinXcmFee => cases hdata
  | relocated _ _ _ | updated _ _ _ _ =>
    refine .inl ⟨rfl, ?_⟩
    rintro a ⟨origin, c, data, heq, -, hdata, -⟩
    cases heq
    cases hdata
  | registered hok hroom hw _ =>
    refine .inr ⟨hroom, rfl, fun a id => ?_⟩
    have hcreates := MantaAssetRegistry.createAsset_creates hR hw id
    simp only [Move.registersFungible_call hok, State.register, hcreates, Call.registered,
      Option.some_inj]
    tauto
  | forceRegistered hok _ hroom hw =>
    refine .inr ⟨hroom, rfl, fun a id => ?_⟩
    have hcreates := MantaAssetRegistry.forceCreateAsset_creates hR hw id
    simp only [Move.registersFungible_call hok, State.register, hcreates, Call.registered,
      Option.some_inj]
    tauto

/-- The token of an asset is created exactly by the call that registers it as a fungible one. -/
theorem createdFor_iff (hR : R.Lawful) (htr : ∀ x ∈ tr, Coherent startId x.1) {t : Token} :
    CreatedFor startId tr a t ↔ RegisteredFungible tr a ∧ t = R.publicToken a := by
  have hstep : ∀ x ∈ tr, (∃ id, t = .asset id ∧ ¬ x.1.Registers startId a ∧
      (x.2.next x.1).Registers startId a ∧ R.assetExists x.1.world id = false ∧
      R.assetExists (x.2.next x.1).world id = true) ↔
      x.2.RegistersFungible x.1 a ∧ t = R.publicToken a := by
    intro x hx
    have hfresh := (htr x hx).next_fresh
    rcases (x.2.effect x.1).registers hR with ⟨hsame, hnone⟩ | ⟨hroom, hnext, hcreates⟩
    · apply iff_of_false
      · rintro ⟨id, -, hold, hnew, -⟩
        unfold State.Registers at hold hnew
        rw [hsame] at hnew
        exact hold hnew
      · rintro ⟨hreg, -⟩
        exact hnone a hreg
    · rw [(htr x hx).registers_succ hroom hnext]
      constructor
      · rintro ⟨id, rfl, hold, hnew, hfree, hid⟩
        obtain rfl : a = x.1.nextAssetId := hnew.resolve_right hold
        obtain ⟨hreg, rfl⟩ := (hcreates _ id).mpr ⟨rfl, hfree, hid⟩
        have hne : x.1.nextAssetId ≠ R.nativeAssetId := fun h => hold (.inl h)
        refine ⟨hreg, ?_⟩
        rw [Frame.publicToken, Frame.tokenNamed, if_neg hne]
      · rintro ⟨hreg, rfl⟩
        obtain ⟨rfl, hfree, hid⟩ := (hcreates a _).mp ⟨hreg, rfl⟩
        have hne : x.1.nextAssetId ≠ R.nativeAssetId := fun h => hfresh (.inl h)
        refine ⟨x.1.nextAssetId, ?_, hfresh, .inl rfl, hfree, hid⟩
        rw [Frame.publicToken, Frame.tokenNamed, if_neg hne]
  constructor
  · rintro ⟨x, hx, hold, hnew, id, rfl, hfree, hid⟩
    obtain ⟨hreg, ht⟩ := (hstep x hx).mp ⟨id, rfl, hold, hnew, hfree, hid⟩
    exact ⟨⟨x, hx, hreg⟩, ht⟩
  · rintro ⟨⟨x, hx, hreg⟩, ht⟩
    obtain ⟨id, hid, hold, hnew, hfree, hexists⟩ := (hstep x hx).mpr ⟨hreg, ht⟩
    exact ⟨x, hx, hold, hnew, id, hid, hfree, hexists⟩

theorem oneToken_iff_selfNamed (hR : R.Lawful) (htr : ∀ x ∈ tr, Coherent startId x.1) :
    OneToken startId tr s ↔ SelfNamed tr s := by
  have hprivate : ∀ {a data}, s.assetIdMetadata.get a = some (.fungible data) →
      (Frame.privateToken s.assetIdMetadata a = some (R.publicToken a) ↔ data.assetId = a) := by
    intro a data ha
    rw [Frame.privateToken, ha]
    exact Option.some_inj.trans Frame.tokenNamed_inj
  constructor
  · intro hone a data ha
    obtain ⟨hname, hcreated, -⟩ := hone a data ha
    refine ⟨(hprivate ha).mp hname, fun hne => ?_⟩
    exact ((createdFor_iff hR htr).mp ((hcreated hne _).mpr rfl)).1
  · intro hself a data ha
    obtain ⟨hname, hreg⟩ := hself a data ha
    refine ⟨(hprivate ha).mpr hname, fun hne t => ?_, fun hnative => ?_⟩
    · rw [createdFor_iff hR htr]
      exact and_iff_right (hreg hne)
    · rw [Frame.publicToken, Frame.tokenNamed, if_pos hnative]

/-- In every state of a run each fungible asset is one token in all operations, exactly if every
accepted call that stores fungible metadata names the asset it is stored for, which was registered
as a fungible one. -/
theorem oneToken_iff (hR : R.Lawful) (hlt : R.nativeAssetId < startId) {world : R.World}
    (h : Runs (State.genesis startId world) tr s) :
    AllAlong (OneToken startId) tr s ↔ Throughout NamesItself tr := by
  have hnil : ∀ x ∈ ([] : History R), Coherent startId x.1 := fun x hx => absurd hx (by simp)
  apply h.allAlong_iff ((oneToken_iff_selfNamed hR hnil).mpr (SelfNamed.genesis world))
  intro tr s m hrun hone _
  have hcoherent := Runs.coherent hlt hrun
  have hself := (oneToken_iff_selfNamed hR hcoherent.2).mp hone
  have hsnoc : ∀ x ∈ tr ++ [(s, m)], Coherent startId x.1 := by
    intro x hx
    rcases List.mem_append.mp hx with hx | hx
    · exact hcoherent.2 x hx
    · rw [List.mem_singleton.mp hx]
      exact hcoherent.1
  rw [oneToken_iff_selfNamed hR hsnoc]
  exact (m.effect s).keeps_selfNamed_iff hcoherent.1 hself

end Tokens

section Underlying

/-- What an asset id stands for on the public side. -/
inductive Underlying where
  | token (t : Token)
  | item (collectionId itemId : StandardAssetId)
  deriving DecidableEq

def underlying : R.Metadata → Underlying
  | .fungible data => .token (R.tokenNamed data.assetId)
  | .nonFungible data => .item data.collectionId data.itemId
  | .sbt data => .item data.collectionId data.itemId

/-- No two assets have the same backing. -/
def OneIdentity (s : State R) : Prop :=
  ∀ a b metadata metadata', s.assetIdMetadata.get a = some metadata →
    s.assetIdMetadata.get b = some metadata' → underlying metadata = underlying metadata' → a = b

/-- An accepted call gives an asset a backing that no other asset has. -/
def Move.BacksAnew (s : State R) (m : Move R) : Prop :=
  ∀ a metadata, m.Stores s a metadata → ∀ b metadata', s.assetIdMetadata.get b = some metadata' →
    underlying metadata' = underlying metadata → b = a

theorem Effect.keeps_oneIdentity_iff (h : OneIdentity s) (he : Effect s m s') :
    OneIdentity s' ↔ m.BacksAnew s := by
  rcases he.stores with ⟨hnone, hs⟩ | ⟨a, metadata, hstores, -, hs⟩
  · refine iff_of_true ?_ fun a metadata hdata => absurd hdata (hnone _ _)
    unfold OneIdentity
    rw [hs]
    exact h
  · unfold OneIdentity Move.BacksAnew
    simp only [hs, hstores]
    constructor
    · rintro hone a metadata ⟨rfl, rfl⟩ b metadata' hb hsame
      by_contra hne
      have hb' := (get_insert_of_ne s.assetIdMetadata metadata hne).trans hb
      exact hne (hone b a metadata' metadata hb' (get_insert_self _ _ _) hsame)
    · intro hnew b c metadata₁ metadata₂ hb hc hsame
      rw [get_insert] at hb hc
      split_ifs at hb hc with hba hca hca
      · rw [hba, hca]
      · obtain rfl := Option.some.inj hb
        exact hba.trans (hnew a _ ⟨rfl, rfl⟩ c metadata₂ hc hsame.symm).symm
      · obtain rfl := Option.some.inj hc
        exact (hnew a _ ⟨rfl, rfl⟩ b metadata₁ hb hsame).trans hca.symm
      · exact h b c metadata₁ metadata₂ hb hc hsame

theorem OneIdentity.genesis (world : R.World) :
    OneIdentity (State.genesis startId world : State R) := by
  intro a b metadata metadata' ha hb _
  simp only [State.genesis, get_insert, get_empty] at ha hb
  split_ifs at ha hb with ha' hb'
  exact ha'.trans hb'.symm

/-- In every state of a run no two assets have the same backing, exactly if every accepted call
gives an asset a backing that no other asset has. -/
theorem oneIdentity_iff {world : R.World} (h : Runs (State.genesis startId world) tr s) :
    Always OneIdentity tr s ↔ ∀ x ∈ tr, x.2.BacksAnew x.1 :=
  h.always_iff (OneIdentity.genesis world) fun _ s m _ hs _ => (m.effect s).keeps_oneIdentity_iff hs

end Underlying

section Witness
open AssetManager.Sample

/-- A user registers a token under its own id. -/
def proper : List (Move runtime) := [user 1 (.registerAsset (1 : ℕ) (token 8))]

theorem oneToken_iff_sample :
    AllAlong (OneToken 8) (trace Move.next start proper) (after proper) ↔
      Throughout NamesItself (trace Move.next start proper) :=
  oneToken_iff runtime_lawful (by decide) (runs proper)

/-- A user registers an asset whose metadata names the native token. -/
def disguised : List (Move runtime) := [user 1 (.registerAsset (1 : ℕ) (token 1))]

/-- A user registers an item, whose id root then gives to a token that someone else created. -/
def recast : List (Move runtime) :=
  [user 1 (.registerAsset (1 : ℕ) (.nonFungible (item 1 1))),
    .other ⟨start.world.holdings, [8]⟩, root (.forceUpdateAssetMetadata 8 (token 8))]

theorem recast_created (t : Token) : ¬ CreatedFor 8 (trace Move.next start recast) 8 t := by
  intro h
  have hcoherent : Always (Coherent 8) (trace Move.next start recast)
    (recast.foldl Move.next start) := Runs.coherent (by decide) (runs recast)
  obtain ⟨⟨x, hx, origin, c, data, hm, -, hdata, -⟩, -⟩ :=
    (createdFor_iff runtime_lawful hcoherent.2).mp h
  simp only [recast, trace, List.mem_cons, List.not_mem_nil, or_false] at hx
  rcases hx with rfl | rfl | rfl
  · cases hm
    cases hdata
  · cases hm
  · cases hm
    cases hdata

/-- The private operations of the first asset move the native token, its public ones the token of
its id; for the second asset no token was created. -/
theorem oneToken_fails :
    (Reachable 8 (after disguised) ∧
      ¬ OneToken 8 (trace Move.next start disguised) (after disguised)) ∧
    Reachable 8 (after recast) ∧ ¬ OneToken 8 (trace Move.next start recast) (after recast) := by
  refine ⟨⟨reachable disguised, ?_⟩, reachable recast, ?_⟩
  · intro hone
    have hget : (after disguised).assetIdMetadata.get 8 = some (token 1) := rfl
    have htoken := (hone 8 _ hget).1
    revert htoken
    decide +kernel
  · intro hone
    have hget : (after recast).assetIdMetadata.get 8 = some (token 8) := rfl
    have hcreated := (hone 8 _ hget).2.1 (by decide)
    exact recast_created _ ((hcreated _).mpr rfl)

theorem oneIdentity_iff_sample : Always OneIdentity (trace Move.next start proper) (after proper) ↔
    ∀ x ∈ trace Move.next start proper, x.2.BacksAnew x.1 :=
  oneIdentity_iff (runs proper)

/-- Two users register one item, as an item and as a soul-bound token. -/
def twofold : List (Move runtime) :=
  [user 1 (.registerAsset (1 : ℕ) (.nonFungible (item 1 1))),
    user 2 (.registerAsset (2 : ℕ) (.sbt (item 1 1)))]

theorem oneIdentity_fails : Reachable 8 (after twofold) ∧ ¬ OneIdentity (after twofold) := by
  refine ⟨reachable twofold, ?_⟩
  intro hone
  have hnon : (after twofold).assetIdMetadata.get 8 = some (.nonFungible (item 1 1)) := by
    decide +kernel
  have hsbt : (after twofold).assetIdMetadata.get 9 = some (.sbt (item 1 1)) := by
    decide +kernel
  have heq := hone 8 9 _ _ hnon hsbt rfl
  revert heq
  decide

end Witness
end AssetManager
end ZkNft
