import ZkNft.AssetManager.Coherence
import ZkNft.AssetManager.Sample

/-! Which asset a location stands for, and what moving an asset does to the others. -/

namespace ZkNft
namespace AssetManager
open StorageMap

variable {R : Runtime} {startId : StandardAssetId} {s s' : State R} {m : Move R}

/-- The location is read as the native asset. -/
def NativeLocation (R : Runtime) (location : MultiLocation) : Prop :=
  ∃ amount, (isNativeConcrete R.selfReserve ⟨.concrete location, .fungible amount⟩).isSome = true

theorem nativeLocation_iff {location : MultiLocation} :
    NativeLocation R location ↔ location = R.selfReserve ∨ location.isHere = true := by
  unfold NativeLocation isNativeConcrete
  simp only
  constructor
  · intro ⟨amount, h⟩
    split_ifs at h with hnative
    · exact hnative
    · cases h
  · intro hnative
    exact ⟨0, by rw [if_pos hnative]; rfl⟩

/-- Every currency is read back as its own asset. -/
def OwnLocation (s : State R) : Prop :=
  ∀ a l, reverseRef s a = .ok l →
    convertRef s l = .ok a ∧ (NativeLocation R l → a = R.nativeAssetId)

/-- The call does not give an asset a location that stands for another one. -/
def Move.LocatesOwn (s : State R) : Move R → Prop
  | .call origin (.registerAsset admin metadata) =>
    ¬ (Call.registerAsset admin metadata).Accepted s origin
  | .call origin (.forceRegisterAsset location metadata) =>
    (Call.forceRegisterAsset location metadata).Accepted s origin →
      ∀ l, location = .v1 l → ¬ NativeLocation R l
  | .call origin (.updateAssetLocation a location) =>
    (Call.updateAssetLocation a location).Accepted s origin →
      ∀ l, location = .v1 l → NativeLocation R l → a = R.nativeAssetId
  | .call _ (.forceUpdateAssetMetadata _ _) => True
  | .call _ (.setUnitsPerSecond _ _) => True
  | .call _ (.forceMintAsset _ _ _) => True
  | .call _ (.setMinXcmFee _ _) => True
  | .other _ => True

theorem reverseRef_eq_ok {a : StandardAssetId} {l : MultiLocation} :
    reverseRef s a = .ok l ↔ s.assetIdLocation.get a = some (.v1 l) := by
  unfold reverseRef
  cases s.assetIdLocation.get a with
  | none => simp
  | some location => cases location <;> simp [AssetLocation.toMultiLocation?]

theorem convertRef_eq_ok {a : StandardAssetId} {l : MultiLocation} :
    convertRef s l = .ok a ↔ s.locationAssetId.get (.v1 l) = some a := by
  unfold convertRef
  cases s.locationAssetId.get (.v1 l) <;> simp

theorem ownLocation_congr (hsame : s.SameRegistry s') : OwnLocation s' ↔ OwnLocation s := by
  simp only [OwnLocation, reverseRef_eq_ok, convertRef_eq_ok, hsame.assetIdLocation,
    hsame.locationAssetId]

/-- A call that the registry rejects, and a move that is no registry call, locates nothing. -/
theorem Move.locatesOwn_of_kept
    (hm : ∀ origin c, m = .call origin c → c.WritesRegistry → ¬ c.Accepted s origin) :
    m.LocatesOwn s := by
  cases m with
  | other w => trivial
  | call origin c =>
    cases c with
    | registerAsset admin metadata => exact hm origin _ rfl trivial
    | forceRegisterAsset location metadata =>
      intro hok
      exact absurd hok (hm origin _ rfl trivial)
    | updateAssetLocation a location =>
      intro hok
      exact absurd hok (hm origin _ rfl trivial)
    | forceUpdateAssetMetadata | setUnitsPerSecond | forceMintAsset | setMinXcmFee => trivial

theorem genesis_ownLocation (w : R.World) : OwnLocation (State.genesis startId w) := by
  intro a l ha
  rw [reverseRef_eq_ok] at ha
  rw [convertRef_eq_ok]
  simp only [State.genesis, get_insert, get_empty] at ha ⊢
  split_ifs at ha with hnative
  rw [if_pos (Option.some.inj ha).symm, hnative]
  exact ⟨rfl, fun _ => rfl⟩

section Step
variable (hc : Coherent startId s)
include hc

/-- A registered asset at the native location is read as the native asset. -/
theorem not_ownLocation_register {l : MultiLocation} (hl : NativeLocation R l)
    (hs : s'.assetIdLocation.get s.nextAssetId = some (.v1 l)) : ¬ OwnLocation s' := by
  intro hown
  have hnative := (hown s.nextAssetId l (reverseRef_eq_ok.mpr hs)).2 hl
  exact hc.next_fresh (.inl hnative)

theorem forceRegister_ownLocation_iff {location : AssetLocation}
    (h : OwnLocation s) (hfree : s.locationAssetId.containsKey location = false)
    (hlocation : s'.assetIdLocation = s.assetIdLocation.insert s.nextAssetId location)
    (hreverse : s'.locationAssetId = s.locationAssetId.insert location s.nextAssetId) :
    OwnLocation s' ↔ ∀ l, location = .v1 l → ¬ NativeLocation R l := by
  constructor
  · rintro hown l rfl hl
    have hnew : s'.assetIdLocation.get s.nextAssetId = some (.v1 l) := by
      rw [hlocation]
      exact get_insert_self _ _ _
    exact not_ownLocation_register hc hl hnew hown
  · intro hforeign a l ha
    rw [reverseRef_eq_ok, hlocation, get_insert] at ha
    rw [convertRef_eq_ok, hreverse]
    split_ifs at ha with hnew
    · have hl : location = .v1 l := Option.some.inj ha
      rw [hl, hnew]
      exact ⟨get_insert_self _ _ _, fun hnative => absurd hnative (hforeign l hl)⟩
    · have ⟨hown, hnative⟩ := h a l (reverseRef_eq_ok.mpr ha)
      rw [convertRef_eq_ok] at hown
      have hne : AssetLocation.v1 l ≠ location := ne_of_get hown (containsKey_eq_false.mp hfree)
      rw [get_insert_of_ne _ _ hne]
      exact ⟨hown, hnative⟩

omit hc in
theorem relocate_ownLocation_iff {a : StandardAssetId} {old location : AssetLocation}
    (h : OwnLocation s) (hold : s.assetIdLocation.get a = some old)
    (hfree : s.locationAssetId.containsKey location = false) :
    OwnLocation (s.relocate a old location) ↔
      ∀ l, location = .v1 l → NativeLocation R l → a = R.nativeAssetId := by
  constructor
  · rintro hown l rfl
    apply (hown a l _).2
    rw [reverseRef_eq_ok]
    exact get_insert_self _ _ _
  · intro hnative b l hb
    rw [reverseRef_eq_ok] at hb
    rw [convertRef_eq_ok]
    simp only [State.relocate, get_insert, get_remove] at hb ⊢
    split_ifs at hb with hba
    · have hl : location = .v1 l := Option.some.inj hb
      rw [if_pos hl.symm, hba]
      exact ⟨rfl, hnative l hl⟩
    · obtain ⟨hown, hlnative⟩ := h b l (reverseRef_eq_ok.mpr hb)
      rw [convertRef_eq_ok] at hown
      have hnew : AssetLocation.v1 l ≠ location := by
        intro heq
        rw [← heq, containsKey, hown] at hfree
        cases hfree
      have hne : AssetLocation.v1 l ≠ old := by
        intro heq
        have hshared := (h a l (reverseRef_eq_ok.mpr (heq ▸ hold))).1
        rw [convertRef_eq_ok, hown] at hshared
        exact hba (Option.some.inj hshared)
      rw [if_neg hnew, if_neg hne]
      exact ⟨hown, hlnative⟩

theorem Effect.keeps_ownLocation_iff (h : OwnLocation s) (he : Effect s m s') :
    OwnLocation s' ↔ m.LocatesOwn s := by
  cases he with
  | kept hsame hm =>
    exact iff_of_true ((ownLocation_congr hsame).mpr h) (Move.locatesOwn_of_kept hm)
  | registered hok _ _ _ =>
    have hnative : NativeLocation R R.selfReserve := nativeLocation_iff.mpr (.inl rfl)
    apply iff_of_false
    · exact not_ownLocation_register hc hnative (get_insert_self _ _ _)
    · exact not_not.mpr hok
  | forceRegistered hok hfree _ _ =>
    rw [forceRegister_ownLocation_iff hc h hfree rfl rfl]
    exact ⟨fun hforeign _ => hforeign, fun hforeign => hforeign hok⟩
  | relocated hok hold hfree =>
    rw [relocate_ownLocation_iff h hold hfree]
    exact ⟨fun hnative _ => hnative, fun hnative => hnative hok⟩
  | updated _ _ _ _ => exact iff_of_true h trivial

end Step

/-- `MultiAssetAdapter::match_asset_and_location`, as far as the asset is concerned. -/
def matchAsset (s : State R) (asset : MultiAsset) : Option StandardAssetId :=
  match isNativeConcrete R.selfReserve asset, asset.id with
  | some _, _ => some R.nativeAssetId
  | none, .concrete location => (convertRef s location).toOption
  | none, .abstract _ => none

/-- What is sent out as currency `a` is withdrawn as asset `a`. -/
theorem OwnLocation.withdraws (h : OwnLocation s) {a : StandardAssetId} {l : MultiLocation}
    (ha : reverseRef s a = .ok l) (amount : BitVec 128) :
    matchAsset s ⟨.concrete l, .fungible amount⟩ = some a := by
  have ⟨hown, hnative⟩ := h a l ha
  unfold matchAsset
  cases hmatch : isNativeConcrete R.selfReserve ⟨.concrete l, .fungible amount⟩ with
  | some v =>
    have hl : NativeLocation R l := ⟨amount, by rw [hmatch]; rfl⟩
    simp only
    rw [hnative hl]
  | none =>
    simp only
    rw [hown]
    rfl

/-- Every state of a run reads each currency back as its own asset exactly if no user registers an
asset and no forced call puts another asset at a native location. -/
theorem ownLocation_iff (hlt : R.nativeAssetId < startId) {w : R.World} {tr : History R}
    (h : Runs (State.genesis startId w) tr s) :
    Always OwnLocation tr s ↔ ∀ x ∈ tr, x.2.LocatesOwn x.1 := by
  apply h.always_iff (genesis_ownLocation w)
  intro tr s m hrun hown _
  have hc : Coherent startId s := registry_coherent ⟨w, tr, hlt, hrun⟩
  exact (m.effect s).keeps_ownLocation_iff hc hown

section Relocation
variable {a : StandardAssetId}

/-- A move of asset `a` from `s` to `s'` leaves the other registered assets at their locations,
and the locations that lead to them. -/
structure RelocationFrame (startId : StandardAssetId) (s s' : State R) (a : StandardAssetId) :
    Prop where
  locations : ∀ b, s.Registers startId b → b ≠ a →
    s'.assetIdLocation.get b = s.assetIdLocation.get b
  resolves : ∀ b l, s.Registers startId b → b ≠ a → s.locationAssetId.get l = some b →
    s'.locationAssetId.get l = some b

/-- The entry that the location of asset `a` has is its own, if the call gets to remove it. -/
def LeavesOwnEntry (s : State R) (origin : Origin R) (a : StandardAssetId)
    (location : AssetLocation) : Prop :=
  origin = .root → s.locationAssetId.containsKey location = false → ∀ old b,
    s.assetIdLocation.get a = some old → s.locationAssetId.get old = some b → b = a

theorem relocate_frame_iff {old location : AssetLocation} (hc : Coherent startId s)
    (hfree : s.locationAssetId.containsKey location = false) :
    RelocationFrame startId s (s.relocate a old location) a ↔
      ∀ b, s.locationAssetId.get old = some b → b = a := by
  constructor
  · intro hframe b hb
    by_contra hne
    have hreg : s.Registers startId b :=
      (hc.locations b).mp (containsKey_iff.mpr ⟨old, hc.reverse old b hb⟩)
    have hkept := hframe.resolves b old hreg hne hb
    have hold : old ≠ location := ne_of_get hb (containsKey_eq_false.mp hfree)
    simp only [State.relocate, get_insert_of_ne _ _ hold, get_remove_self] at hkept
    cases hkept
  · intro hown
    constructor
    · intro b _ hne
      exact get_insert_of_ne _ _ hne
    · intro b l _ hne hb
      have hnew : l ≠ location := ne_of_get hb (containsKey_eq_false.mp hfree)
      have hold : l ≠ old := by
        rintro rfl
        exact hne (hown b hb)
      simp only [State.relocate, get_insert_of_ne _ _ hnew, get_remove_of_ne _ hold]
      exact hb

theorem updateAssetLocation_accepted {old location : AssetLocation}
    (hold : s.assetIdLocation.get a = some old)
    (hfree : s.locationAssetId.containsKey location = false) :
    (Call.updateAssetLocation a location).dispatch .root s =
      (.ok ⟨⟩, s.relocate a old location) :=
  updateAssetLocation_ok.mpr ⟨old, rfl, hold, hfree, rfl⟩

/-- A call that moves asset `a` leaves the others alone, and a failing one everything, exactly if
the entry at the location it leaves is its own. -/
theorem relocation_iff (h : Reachable startId s) (origin : Origin R) (location : AssetLocation) :
    ((((Call.updateAssetLocation a location).Accepted s origin) → RelocationFrame startId s
          ((Call.updateAssetLocation a location).dispatch origin s).2 a) ∧
        (¬ (Call.updateAssetLocation a location).Accepted s origin →
          ((Call.updateAssetLocation a location).dispatch origin s).2 = s)) ↔
      LeavesOwnEntry s origin a location := by
  have hc := registry_coherent h
  constructor
  · rintro ⟨hframe, -⟩ rfl hfree old b hold hb
    have hrun := updateAssetLocation_accepted hold hfree
    have hmoved := hframe (congrArg Prod.fst hrun)
    rw [hrun, relocate_frame_iff hc hfree] at hmoved
    exact hmoved b hb
  · intro hown
    constructor
    · intro hok
      have hrun : updateAssetLocation origin a location s = (.ok ⟨⟩, _) := Prod.ext hok rfl
      obtain ⟨old, rfl, hold, hfree, hnext⟩ := updateAssetLocation_ok.mp hrun
      have hmove : ((Call.updateAssetLocation a location).dispatch .root s).2 =
          s.relocate a old location := hnext
      rw [hmove, relocate_frame_iff hc hfree]
      intro b hb
      exact hown rfl hfree old b hold hb
    · exact Call.dispatch_rollback

end Relocation

section Witness
open AssetManager.Sample

/-- A chain's token is registered and moved to another chain. -/
def relocation : List (Move runtime) :=
  [root (.forceRegisterAsset (chain 2000) (token 8)), root (.updateAssetLocation 8 (chain 2001))]

theorem ownLocation_iff_sample : Always OwnLocation (trace Move.next start relocation)
    (after relocation) ↔ ∀ x ∈ trace Move.next start relocation, x.2.LocatesOwn x.1 :=
  ownLocation_iff (by decide) (runs relocation)

/-- A user registers an asset. -/
def registration : List (Move runtime) := [user 1 (.registerAsset (1 : ℕ) (token 8))]

/-- The user's asset goes out as the native one. -/
theorem ownLocation_fails : Reachable 8 (after registration) ∧
    ¬ OwnLocation (after registration) := by
  refine ⟨reachable registration, ?_⟩
  intro hown
  have hlocation : (after registration).assetIdLocation.get 8 = some (.v1 (.sibling 2084)) := by
    decide +kernel
  have hback : (after registration).locationAssetId.get (.v1 (.sibling 2084)) = some 1 := by
    decide +kernel
  have hread := (hown 8 _ (reverseRef_eq_ok.mpr hlocation)).1
  rw [convertRef_eq_ok, hback] at hread
  revert hread
  decide

theorem relocation_iff_sample :
    (((Call.updateAssetLocation 8 (chain 2001)).Accepted (after registration) .root →
        RelocationFrame 8 (after registration)
          ((Call.updateAssetLocation 8 (chain 2001)).dispatch .root (after registration)).2 8) ∧
      (¬ (Call.updateAssetLocation 8 (chain 2001)).Accepted (after registration) .root →
        ((Call.updateAssetLocation 8 (chain 2001)).dispatch .root (after registration)).2 =
          after registration)) ↔
      LeavesOwnEntry (after registration) .root 8 (chain 2001) :=
  relocation_iff (reachable registration) .root (chain 2001)

/-- Moving the user's asset away takes the native asset's location with it. -/
theorem relocation_disturbs : Reachable 8 (after registration) ∧
    (Call.updateAssetLocation 8 (chain 2001)).Accepted (after registration) .root ∧
    ¬ RelocationFrame 8 (after registration)
      ((Call.updateAssetLocation 8 (chain 2001)).dispatch .root (after registration)).2 8 := by
  have hold : (after registration).assetIdLocation.get 8 = some (chain 2084) := by decide +kernel
  have hback : (after registration).locationAssetId.get (chain 2084) = some 1 := by decide +kernel
  have hfree : (after registration).locationAssetId.containsKey (chain 2001) = false := by
    decide +kernel
  refine ⟨reachable registration, ?_, ?_⟩
  · exact congrArg Prod.fst (updateAssetLocation_accepted hold hfree)
  · intro hframe
    have hgone : ((Call.updateAssetLocation 8 (chain 2001)).dispatch .root
        (after registration)).2.locationAssetId.get (chain 2084) = none := by
      decide +kernel
    have hkept := hframe.resolves 1 (chain 2084) (.inl rfl) (by decide) hback
    rw [hgone] at hkept
    cases hkept

end Witness
end AssetManager
end ZkNft
