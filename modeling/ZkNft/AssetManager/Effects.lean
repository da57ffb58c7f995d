import ZkNft.AssetManager.Pallet
import ZkNft.Lib.Run

/-! What each move does to the registry of the asset manager. -/

namespace ZkNft
namespace AssetManager
open StorageMap

variable {R : Runtime}

/-- A move: a call, or whatever other pallets do to the public assets. -/
inductive Move (R : Runtime) where
  | call (origin : Origin R) (call : Call R)
  | other (world : R.World)

def Move.next (s : State R) : Move R → State R
  | .call origin c => (c.dispatch origin s).2
  | .other world => { s with world }

/-- The call succeeds. -/
def Call.Accepted (s : State R) (origin : Origin R) (call : Call R) : Prop :=
  (call.dispatch origin s).1 = .ok ⟨⟩

/-- Runs of the asset manager, every move allowed. -/
abbrev History (R : Runtime) := List (State R × Move R)

abbrev Runs (s₀ : State R) (tr : History R) (s : State R) : Prop :=
  Run Move.next (fun _ _ => True) s₀ tr s

/-- The states after any sequence of moves from a genesis whose start id lies above the native
id. -/
def Reachable (startId : StandardAssetId) (s : State R) : Prop :=
  ∃ world tr, R.nativeAssetId < startId ∧ Runs (State.genesis startId world) tr s

namespace State

/-- The state with a new asset under the next id. -/
def register (s : State R) (location : AssetLocation) (metadata : R.Metadata) (world : R.World) :
    State R :=
  { s with
    nextAssetId := s.nextAssetId + 1
    world
    assetIdLocation := s.assetIdLocation.insert s.nextAssetId location
    assetIdMetadata := s.assetIdMetadata.insert s.nextAssetId metadata
    events := s.events ++ [.assetRegistered s.nextAssetId location metadata] }

/-- The state with asset `a` moved from `old` to `location`. -/
def relocate (s : State R) (a : StandardAssetId) (old location : AssetLocation) : State R :=
  { s with
    locationAssetId := (s.locationAssetId.remove old).insert location a
    assetIdLocation := s.assetIdLocation.insert a location
    allowedDestParaIds :=
      let paraIds := (paraIdFromMultilocation old.toMultiLocation?).elim s.allowedDestParaIds
        (decreaseCountOfAssociatedAssets s.allowedDestParaIds)
      (paraIdFromMultilocation location.toMultiLocation?).elim paraIds
        (increaseCountOfAssociatedAssets paraIds)
    events := s.events ++ [.assetLocationUpdated a location] }

end State

section Calls
variable {s s' : State R} {u : PUnit} {origin : Origin R}

theorem ensure_bind_ok {p : State R → Bool} {e : Error} {x : PUnit → Update R} :
    (ensure p e >>= x) s = (.ok u, s') ↔ p s = true ∧ x ⟨⟩ s = (.ok u, s') := by
  rw [ensure, Tx.read_bind_ok]
  constructor
  · intro ⟨_, hp, hx⟩
    exact ⟨Exec.ensure_eq_ok.mp hp, hx⟩
  · intro ⟨hp, hx⟩
    exact ⟨⟨⟩, Exec.ensure_eq_ok.mpr hp, hx⟩

/-- The next id is handed out unless it is the last one. -/
theorem nextAssetIdAndIncrement_bind_ok {x : StandardAssetId → Update R} :
    (nextAssetIdAndIncrement >>= x) s = (.ok u, s') ↔ s.nextAssetId ≠ BitVec.allOnes 128 ∧
      x s.nextAssetId { s with nextAssetId := s.nextAssetId + 1 } = (.ok u, s') := by
  rw [Tx.bind_run_ok]
  simp only [nextAssetIdAndIncrement, Tx.read_bind_ok, Exec.ok.injEq, exists_eq_left',
    Exec.ensure_eq_ok, Tx.modify_bind_ok, Tx.pure_ok]
  constructor
  · rintro ⟨id, s₁, ⟨_, hid, heq, hs⟩, hx⟩
    rw [heq, hs] at hx
    exact ⟨hid, hx⟩
  · rintro ⟨hid, hx⟩
    exact ⟨_, _, ⟨⟨⟩, hid, rfl, rfl⟩, hx⟩

theorem registerAsset_ok {admin : R.Account} {metadata : R.Metadata} :
    registerAsset origin admin metadata s = (.ok u, s') ↔ ∃ who w, origin = .signed who ∧
      s.nextAssetId ≠ BitVec.allOnes 128 ∧
      MantaAssetRegistry.createAsset R s.world who s.nextAssetId admin metadata = .ok w ∧
      s.registeredAssetId.containsKey (.ofMetadata metadata) = false ∧
      s' = { s.register R.nativeAssetLocation metadata w with
        registeredAssetId := s.registeredAssetId.insert (.ofMetadata metadata) s.nextAssetId } := by
  simp only [registerAsset, Tx.transactional_run_ok, Tx.read_bind_ok, RawOrigin.ensureSigned_eq_ok,
    nextAssetIdAndIncrement_bind_ok, Exec.lift_eq_ok, Exec.except_mapError_eq_ok,
    Tx.modify_bind_ok, ensure_bind_ok, Bool.not_eq_true', depositEvent, Tx.modify_ok]
  constructor
  · rintro ⟨who, ho, hroom, w, hw, hkey, hs⟩
    exact ⟨who, w, ho, hroom, hw, hkey, hs⟩
  · rintro ⟨who, w, ho, hroom, hw, hkey, hs⟩
    exact ⟨who, ho, hroom, w, hw, hkey, hs⟩

theorem forceRegisterAsset_ok {location : AssetLocation} {metadata : R.Metadata} :
    forceRegisterAsset origin location metadata s = (.ok u, s') ↔ ∃ w, origin = .root ∧
      s.locationAssetId.containsKey location = false ∧ s.nextAssetId ≠ BitVec.allOnes 128 ∧
      MantaAssetRegistry.forceCreateAsset R s.world s.nextAssetId metadata = .ok w ∧
      s' = { s.register location metadata w with
        locationAssetId := s.locationAssetId.insert location s.nextAssetId
        allowedDestParaIds := (paraIdFromMultilocation location.toMultiLocation?).elim
          s.allowedDestParaIds (increaseCountOfAssociatedAssets s.allowedDestParaIds) } := by
  simp only [forceRegisterAsset, Tx.transactional_run_ok, Tx.read_bind_ok,
    RawOrigin.ensureRoot_eq_ok, nextAssetIdAndIncrement_bind_ok, Exec.lift_eq_ok,
    Exec.except_mapError_eq_ok, Tx.modify_bind_ok, ensure_bind_ok, Bool.not_eq_true', depositEvent,
    Tx.modify_ok, exists_const]
  constructor
  · rintro ⟨ho, hfree, hroom, w, hw, hs⟩
    exact ⟨w, ho, hfree, hroom, hw, hs⟩
  · rintro ⟨w, ho, hfree, hroom, hw, hs⟩
    exact ⟨ho, hfree, hroom, w, hw, hs⟩

theorem updateAssetLocation_ok {a : StandardAssetId} {location : AssetLocation} :
    updateAssetLocation origin a location s = (.ok u, s') ↔ ∃ old, origin = .root ∧
      s.assetIdLocation.get a = some old ∧ s.locationAssetId.containsKey location = false ∧
      s' = s.relocate a old location := by
  simp only [updateAssetLocation, Tx.transactional_run_ok, Tx.read_bind_ok,
    RawOrigin.ensureRoot_eq_ok, Tx.modify_bind_ok, ensure_bind_ok, Bool.not_eq_true',
    depositEvent, Tx.modify_ok, exists_const, Exec.okOr_eq_ok]
  constructor
  · rintro ⟨ho, _, hfree, old, hold, hs⟩
    exact ⟨old, ho, hold, hfree, hs⟩
  · rintro ⟨old, ho, hold, hfree, hs⟩
    exact ⟨ho, containsKey_iff.mpr ⟨old, hold⟩, hfree, old, hold, hs⟩

theorem forceUpdateAssetMetadata_ok {a : StandardAssetId} {metadata : R.Metadata} :
    forceUpdateAssetMetadata origin a metadata s = (.ok u, s') ↔ ∃ w, origin = .root ∧
      a ≠ R.nativeAssetId ∧ s.assetIdLocation.containsKey a = true ∧
      MantaAssetRegistry.forceUpdateMetadata R s.world a metadata = .ok w ∧
      s' = { s with
        world := w
        assetIdMetadata := s.assetIdMetadata.insert a metadata
        events := s.events ++ [.assetMetadataUpdated a metadata] } := by
  simp only [forceUpdateAssetMetadata, Tx.transactional_run_ok, Tx.read_bind_ok,
    RawOrigin.ensureRoot_eq_ok, Tx.modify_bind_ok, ensure_bind_ok, depositEvent, Tx.modify_ok,
    exists_const, Exec.lift_eq_ok, Exec.except_mapError_eq_ok, decide_eq_true_eq]
  constructor
  · rintro ⟨ho, hne, hkey, w, hw, hs⟩
    exact ⟨w, ho, hne, hkey, hw, hs⟩
  · rintro ⟨w, ho, hne, hkey, hw, hs⟩
    exact ⟨ho, hne, hkey, w, hw, hs⟩

end Calls

/-- The registry is the same in both states. -/
structure State.SameRegistry (s s' : State R) : Prop where
  assetIdLocation : s'.assetIdLocation = s.assetIdLocation
  locationAssetId : s'.locationAssetId = s.locationAssetId
  assetIdMetadata : s'.assetIdMetadata = s.assetIdMetadata
  registeredAssetId : s'.registeredAssetId = s.registeredAssetId
  nextAssetId : s'.nextAssetId = s.nextAssetId
  allowedDestParaIds : s'.allowedDestParaIds = s.allowedDestParaIds

/-- The calls that write the registry. -/
def Call.WritesRegistry : Call R → Prop
  | .registerAsset _ _ => True
  | .forceRegisterAsset _ _ => True
  | .updateAssetLocation _ _ => True
  | .forceUpdateAssetMetadata _ _ => True
  | .setUnitsPerSecond _ _ => False
  | .forceMintAsset _ _ _ => False
  | .setMinXcmFee _ _ => False

/-- What a move does to the registry. -/
inductive Effect (s : State R) : Move R → State R → Prop where
  | kept {m : Move R} {s' : State R} (hsame : s.SameRegistry s')
    (hm : ∀ origin c, m = .call origin c → c.WritesRegistry → ¬ c.Accepted s origin) :
    Effect s m s'
  | registered {who admin : R.Account} {metadata : R.Metadata} {w : R.World}
    (hok : (Call.registerAsset admin metadata).Accepted s (.signed who))
    (hroom : s.nextAssetId ≠ BitVec.allOnes 128)
    (hw : MantaAssetRegistry.createAsset R s.world who s.nextAssetId admin metadata = .ok w)
    (hkey : s.registeredAssetId.containsKey (.ofMetadata metadata) = false) :
    Effect s (.call (.signed who) (.registerAsset admin metadata))
      { s.register R.nativeAssetLocation metadata w with
        registeredAssetId := s.registeredAssetId.insert (.ofMetadata metadata) s.nextAssetId }
  | forceRegistered {location : AssetLocation} {metadata : R.Metadata} {w : R.World}
    (hok : (Call.forceRegisterAsset location metadata).Accepted s .root)
    (hfree : s.locationAssetId.containsKey location = false)
    (hroom : s.nextAssetId ≠ BitVec.allOnes 128)
    (hw : MantaAssetRegistry.forceCreateAsset R s.world s.nextAssetId metadata = .ok w) :
    Effect s (.call .root (.forceRegisterAsset location metadata))
      { s.register location metadata w with
        locationAssetId := s.locationAssetId.insert location s.nextAssetId
        allowedDestParaIds := (paraIdFromMultilocation location.toMultiLocation?).elim
          s.allowedDestParaIds (increaseCountOfAssociatedAssets s.allowedDestParaIds) }
  | relocated {a : StandardAssetId} {old location : AssetLocation}
    (hok : (Call.updateAssetLocation a location).Accepted s .root)
    (hold : s.assetIdLocation.get a = some old)
    (hfree : s.locationAssetId.containsKey location = false) :
    Effect s (.call .root (.updateAssetLocation a location)) (s.relocate a old location)
  | updated {a : StandardAssetId} {metadata : R.Metadata} {w : R.World}
    (hok : (Call.forceUpdateAssetMetadata a metadata).Accepted s .root)
    (hne : a ≠ R.nativeAssetId) (hkey : s.assetIdLocation.containsKey a = true)
    (hw : MantaAssetRegistry.forceUpdateMetadata R s.world a metadata = .ok w) :
    Effect s (.call .root (.forceUpdateAssetMetadata a metadata))
      { s with
        world := w
        assetIdMetadata := s.assetIdMetadata.insert a metadata
        events := s.events ++ [.assetMetadataUpdated a metadata] }

theorem State.SameRegistry.refl (s : State R) : s.SameRegistry s := ⟨rfl, rfl, rfl, rfl, rfl, rfl⟩

theorem Call.dispatch_rollback {s : State R} {origin : Origin R} {c : Call R}
    (h : ¬ c.Accepted s origin) : (c.dispatch origin s).2 = s := by
  have hfail : ∀ u, (c.dispatch origin s).1 ≠ .ok u := fun _ => h
  cases c <;> exact Tx.transactional_rollback hfail

/-- The calls that write no registry item keep the registry. -/
theorem Call.dispatch_same {s s' : State R} {origin : Origin R} {c : Call R}
    (hc : ¬ c.WritesRegistry) (h : c.dispatch origin s = (.ok ⟨⟩, s')) : s.SameRegistry s' := by
  cases c with
  | registerAsset | forceRegisterAsset | updateAssetLocation | forceUpdateAssetMetadata =>
    exact absurd trivial hc
  | setUnitsPerSecond a v =>
    simp only [dispatch, AssetManager.setUnitsPerSecond, Tx.transactional_run_ok, Tx.read_bind_ok,
      Tx.modify_bind_ok, ensure_bind_ok, depositEvent, Tx.modify_ok] at h
    obtain ⟨-, -, -, rfl⟩ := h
    exact ⟨rfl, rfl, rfl, rfl, rfl, rfl⟩
  | forceMintAsset a x v =>
    simp only [dispatch, AssetManager.forceMintAsset, Tx.transactional_run_ok, Tx.read_bind_ok,
      Tx.modify_bind_ok, ensure_bind_ok, depositEvent, Tx.modify_ok] at h
    obtain ⟨-, -, -, w, -, rfl⟩ := h
    exact ⟨rfl, rfl, rfl, rfl, rfl, rfl⟩
  | setMinXcmFee l v =>
    simp only [dispatch, AssetManager.setMinXcmFee, Tx.transactional_run_ok, Tx.read_bind_ok,
      Tx.modify_bind_ok, depositEvent, Tx.modify_ok] at h
    obtain ⟨-, -, rfl⟩ := h
    exact ⟨rfl, rfl, rfl, rfl, rfl, rfl⟩

theorem Move.effect (s : State R) (m : Move R) : Effect s m (m.next s) := by
  cases m with
  | other w =>
    refine .kept ⟨rfl, rfl, rfl, rfl, rfl, rfl⟩ ?_
    intro origin c hm
    cases hm
  | call origin c =>
    by_cases hok : c.Accepted s origin
    · have hrun : c.dispatch origin s = (.ok ⟨⟩, Move.next s (.call origin c)) := Prod.ext hok rfl
      generalize Move.next s (.call origin c) = s' at hrun ⊢
      by_cases hc : c.WritesRegistry
      swap
      · refine .kept (Call.dispatch_same hc hrun) ?_
        intro origin' c' hm hc'
        cases hm
        exact absurd hc' hc
      cases c with
      | registerAsset admin metadata =>
        obtain ⟨who, w, rfl, hroom, hw, hkey, rfl⟩ := registerAsset_ok.mp hrun
        exact .registered hok hroom hw hkey
      | forceRegisterAsset location metadata =>
        obtain ⟨w, rfl, hfree, hroom, hw, rfl⟩ := forceRegisterAsset_ok.mp hrun
        exact .forceRegistered hok hfree hroom hw
      | updateAssetLocation a location =>
        obtain ⟨old, rfl, hold, hfree, rfl⟩ := updateAssetLocation_ok.mp hrun
        exact .relocated hok hold hfree
      | forceUpdateAssetMetadata a metadata =>
        obtain ⟨w, rfl, hne, hkey, hw, rfl⟩ := forceUpdateAssetMetadata_ok.mp hrun
        exact .updated hok hne hkey hw
      | setUnitsPerSecond | forceMintAsset | setMinXcmFee => exact hc.elim
    · rw [Move.next, Call.dispatch_rollback hok]
      refine .kept (.refl s) ?_
      intro origin' c' hm _
      cases hm
      exact hok

end AssetManager
end ZkNft
