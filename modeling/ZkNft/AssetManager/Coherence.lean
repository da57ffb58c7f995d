import ZkNft.AssetManager.Effects
import ZkNft.AssetManager.Sample

/-! The maps of the asset manager agree on what is registered, in every reachable state. -/

namespace ZkNft
namespace AssetManager
open StorageMap

variable {R : Runtime} {startId : StandardAssetId} {s s' : State R}

/-- The native id, and the ids handed out so far. -/
def State.Registers (startId : StandardAssetId) (s : State R) (a : StandardAssetId) : Prop :=
  a = R.nativeAssetId ∨ startId ≤ a ∧ a < s.nextAssetId

/-- Both id maps hold exactly the registered ids, and a location leads to an asset only if the
asset is at that location. -/
structure Coherent (startId : StandardAssetId) (s : State R) : Prop where
  native_lt : R.nativeAssetId < startId
  start_le : startId ≤ s.nextAssetId
  locations : ∀ a, s.assetIdLocation.containsKey a = true ↔ s.Registers startId a
  metadata : ∀ a, s.assetIdMetadata.containsKey a = true ↔ s.Registers startId a
  reverse : ∀ l a, s.locationAssetId.get l = some a → s.assetIdLocation.get a = some l

/-- The ids after the next one is handed out. -/
theorem lt_add_one_iff {n a : StandardAssetId} (hn : n ≠ BitVec.allOnes 128) :
    a < n + 1 ↔ a = n ∨ a < n := by
  have hlt : n.toNat + 1 < 2 ^ 128 := by
    have hne : n.toNat ≠ 2 ^ 128 - 1 := by
      intro heq
      apply hn
      apply BitVec.eq_of_toNat_eq
      rw [BitVec.toNat_allOnes]
      exact heq
    have hbound := n.isLt
    omega
  have hadd : (n + 1).toNat = n.toNat + 1 := by
    rw [BitVec.toNat_add]
    exact Nat.mod_eq_of_lt hlt
  rw [BitVec.lt_def, BitVec.lt_def, hadd, ← BitVec.toNat_inj]
  omega

namespace Coherent

theorem genesis (hlt : R.nativeAssetId < startId) (w : R.World) :
    Coherent startId (State.genesis startId w) where
  native_lt := hlt
  start_le := BitVec.le_refl startId
  locations a := by
    have hnone : ¬ (startId ≤ a ∧ a < startId) := fun ⟨hle, hlt'⟩ => by bv_omega
    simp only [State.genesis, State.Registers, containsKey_insert, hnone]
    simp [containsKey]
  metadata a := by
    have hnone : ¬ (startId ≤ a ∧ a < startId) := fun ⟨hle, hlt'⟩ => by bv_omega
    simp only [State.genesis, State.Registers, containsKey_insert, hnone]
    simp [containsKey]
  reverse l a h := by
    simp only [State.genesis, get_insert, get_empty] at h ⊢
    split_ifs at h with hl
    obtain rfl := Option.some.inj h
    rw [if_pos rfl, hl]

variable (h : Coherent startId s)
include h

theorem next_fresh : ¬ s.Registers startId s.nextAssetId := by
  have hlt := h.native_lt
  have hle := h.start_le
  intro hreg
  rcases hreg with heq | ⟨-, hself⟩
  · rw [heq] at hle
    bv_omega
  · bv_omega

/-- A registered id is not the next one. -/
theorem ne_next {a : StandardAssetId} {l : AssetLocation} (ha : s.assetIdLocation.get a = some l) :
    a ≠ s.nextAssetId := by
  rintro rfl
  exact h.next_fresh ((h.locations _).mp (containsKey_iff.mpr ⟨l, ha⟩))

/-- One asset is not reached by two locations. -/
theorem location_unique {a : StandardAssetId} {l l' : AssetLocation}
    (hl : s.locationAssetId.get l = some a) (hl' : s.locationAssetId.get l' = some a) : l = l' := by
  have hfirst := h.reverse l a hl
  rw [h.reverse l' a hl'] at hfirst
  exact (Option.some.inj hfirst).symm

theorem of_same (hsame : s.SameRegistry s') : Coherent startId s' where
  native_lt := h.native_lt
  start_le := hsame.nextAssetId ▸ h.start_le
  locations a := by
    rw [hsame.assetIdLocation, State.Registers, hsame.nextAssetId]
    exact h.locations a
  metadata a := by
    rw [hsame.assetIdMetadata, State.Registers, hsame.nextAssetId]
    exact h.metadata a
  reverse l a := by
    rw [hsame.assetIdLocation, hsame.locationAssetId]
    exact h.reverse l a

/-- A registration adds the next id to the registered ones. -/
theorem registers_succ (hroom : s.nextAssetId ≠ BitVec.allOnes 128)
    (hnext : s'.nextAssetId = s.nextAssetId + 1) (a : StandardAssetId) :
    s'.Registers startId a ↔ a = s.nextAssetId ∨ s.Registers startId a := by
  have hle := h.start_le
  unfold State.Registers
  rw [hnext, lt_add_one_iff hroom]
  constructor
  · rintro (ha | ⟨hstart, ha | ha⟩)
    · exact .inr (.inl ha)
    · exact .inl ha
    · exact .inr (.inr ⟨hstart, ha⟩)
  · rintro (ha | ha | ⟨hstart, ha⟩)
    · exact .inr ⟨ha ▸ hle, .inl ha⟩
    · exact .inl ha
    · exact .inr ⟨hstart, .inr ha⟩

/-- A registration takes the next id, whatever it writes under locations as long as that leads to
the new asset. -/
theorem register {location : AssetLocation} {metadata : R.Metadata}
    (hroom : s.nextAssetId ≠ BitVec.allOnes 128)
    (hnext : s'.nextAssetId = s.nextAssetId + 1)
    (hlocation : s'.assetIdLocation = s.assetIdLocation.insert s.nextAssetId location)
    (hmetadata : s'.assetIdMetadata = s.assetIdMetadata.insert s.nextAssetId metadata)
    (hreverse : ∀ l a, s'.locationAssetId.get l = some a →
      s.locationAssetId.get l = some a ∨ a = s.nextAssetId ∧ l = location) :
    Coherent startId s' := by
  have hle := h.start_le
  have hids := h.registers_succ hroom hnext
  constructor
  · exact h.native_lt
  · rw [hnext]
    have hlt := (lt_add_one_iff (a := s.nextAssetId) hroom).mpr (.inl rfl)
    bv_omega
  · intro a
    rw [hlocation, containsKey_insert, hids, h.locations]
  · intro a
    rw [hmetadata, containsKey_insert, hids, h.metadata]
  · intro l a hl
    rw [hlocation]
    rcases hreverse l a hl with hold | ⟨rfl, rfl⟩
    · have hget := h.reverse l a hold
      rw [get_insert_of_ne _ _ (h.ne_next hget)]
      exact hget
    · exact get_insert_self _ _ _

/-- An asset moves together with its entry under locations. -/
theorem relocate {a : StandardAssetId} {old location : AssetLocation}
    (hold : s.assetIdLocation.get a = some old) : Coherent startId (s.relocate a old location) where
  native_lt := h.native_lt
  start_le := h.start_le
  locations b := by
    have hkey : s.Registers startId a := (h.locations a).mp (containsKey_iff.mpr ⟨old, hold⟩)
    simp only [State.relocate, containsKey_insert, h.locations]
    constructor
    · rintro (rfl | hb)
      · exact hkey
      · exact hb
    · exact .inr
  metadata b := h.metadata b
  reverse l b hl := by
    simp only [State.relocate, get_insert, get_remove] at hl ⊢
    split_ifs at hl with hnew hgone
    · obtain rfl := Option.some.inj hl
      rw [if_pos rfl, hnew]
    · have hget := h.reverse l b hl
      have hne : b ≠ a := by
        rintro rfl
        rw [hold] at hget
        exact hgone (Option.some.inj hget).symm
      rw [if_neg hne, hget]

theorem step {m : Move R} (he : Effect s m s') : Coherent startId s' := by
  cases he with
  | kept hsame _ => exact h.of_same hsame
  | registered _ hroom _ _ =>
    apply h.register hroom rfl rfl rfl
    intro l a hl
    exact .inl hl
  | forceRegistered _ _ hroom _ =>
    apply h.register hroom rfl rfl rfl
    intro l a hl
    simp only [get_insert] at hl
    split_ifs at hl with hnew
    · exact .inr ⟨(Option.some.inj hl).symm, hnew⟩
    · exact .inl hl
  | relocated _ hold _ => exact h.relocate hold
  | @updated a metadata w _ _ hkey _ =>
    refine ⟨h.native_lt, h.start_le, h.locations, ?_, h.reverse⟩
    intro b
    have ha : s.Registers startId a := (h.locations a).mp hkey
    simp only [containsKey_insert, h.metadata]
    constructor
    · rintro (rfl | hb)
      · exact ha
      · exact hb
    · exact .inr

end Coherent

theorem Runs.coherent {world : R.World} {tr : History R} (hlt : R.nativeAssetId < startId)
    (h : Runs (State.genesis startId world) tr s) : Always (Coherent startId) tr s :=
  Run.always h (Coherent.genesis hlt world) fun s m hs _ => hs.step (m.effect s)

/-- In every reachable state of the asset manager the registry is coherent. -/
theorem registry_coherent (h : Reachable startId s) : Coherent startId s := by
  obtain ⟨w, tr, hlt, hrun⟩ := h
  exact (Runs.coherent hlt hrun).1

theorem registry_coherent_sample : Coherent 8 (Sample.after
    [Sample.root (.forceRegisterAsset (Sample.chain 2000) (Sample.token 8)),
      Sample.root (.updateAssetLocation 8 (Sample.chain 2001))]) :=
  registry_coherent (Sample.reachable _)

end AssetManager
end ZkNft
