import ZkNft.Primitives.Xcm

/-! The filter of reserve transfers: an asset is trusted from the chain that its location starts
with, and from no other one. -/

namespace ZkNft

/-- The reserve location of an asset: the chain part of a concrete location. -/
def MultiAsset.reserve (self : MultiAsset) : Option MultiLocation :=
  match self.id with
  | .concrete location =>
    match location.parents.toNat, location.firstInterior with
    | 0, some (.parachain id) => some (.child id)
    | 1, some (.parachain id) => some (.sibling id)
    | 1, _ => some .parent
    | _, _ => none
  | .abstract _ => none

/-- `FilterAssetLocation`. -/
def MultiNativeAsset.filterAssetLocation (asset : MultiAsset) (origin : MultiLocation) : Bool :=
  (asset.reserve.map fun r => decide (r = origin)).getD false

namespace MultiLocation

/-- The chain that a location starts with: the parachain of its first junction, or the parent where
the first junction is not one. -/
inductive ChainPrefix (location : MultiLocation) : MultiLocation → Prop where
  | child (id : ParaId) (hparents : location.parents = 0)
    (hfirst : location.firstInterior = some (.parachain id)) : ChainPrefix location (.child id)
  | sibling (id : ParaId) (hparents : location.parents = 1)
    (hfirst : location.firstInterior = some (.parachain id)) : ChainPrefix location (.sibling id)
  | parent (hparents : location.parents = 1)
    (hfirst : ∀ id, location.firstInterior ≠ some (.parachain id)) : ChainPrefix location .parent

namespace ChainPrefix
variable {location chain chain' : MultiLocation}

theorem unique (h : ChainPrefix location chain) (h' : ChainPrefix location chain') :
    chain = chain' := by
  cases h with
  | child id hp hf =>
    cases h' with
    | child id' hp' hf' =>
      rw [hf] at hf'
      cases hf'
      rfl
    | sibling id' hp' hf' =>
      rw [hp] at hp'
      cases hp'
    | parent hp' hf' =>
      rw [hp] at hp'
      cases hp'
  | sibling id hp hf =>
    cases h' with
    | child id' hp' hf' =>
      rw [hp] at hp'
      cases hp'
    | sibling id' hp' hf' =>
      rw [hf] at hf'
      cases hf'
      rfl
    | parent hp' hf' => exact absurd hf (hf' id)
  | parent hp hf =>
    cases h' with
    | child id' hp' hf' =>
      rw [hp] at hp'
      cases hp'
    | sibling id' hp' hf' => exact absurd hf' (hf id')
    | parent hp' hf' => rfl

end ChainPrefix
end MultiLocation

theorem reserve_eq_some {asset : MultiAsset} {chain : MultiLocation} :
    asset.reserve = some chain ↔
      ∃ location, asset.id = .concrete location ∧ location.ChainPrefix chain := by
  have hzero : ∀ n : UInt8, n.toNat = 0 ↔ n = 0 := fun n => UInt8.toNat_inj (b := 0)
  have hone : ∀ n : UInt8, n.toNat = 1 ↔ n = 1 := fun n => UInt8.toNat_inj (b := 1)
  unfold MultiAsset.reserve
  cases hid : asset.id with
  | abstract id => simp
  | concrete location =>
    dsimp only
    constructor
    · intro h
      refine ⟨location, rfl, ?_⟩
      split at h
      · next id hp hf =>
        cases h
        exact .child id ((hzero _).mp hp) hf
      · next id hp hf =>
        cases h
        exact .sibling id ((hone _).mp hp) hf
      · next hp hf =>
        cases h
        exact .parent ((hone _).mp hp) fun id h => hf id h
      · cases h
    · intro ⟨location', heq, hchain⟩
      cases heq
      cases hchain with
      | child id hp hf =>
        rw [hp, hf]
        rfl
      | sibling id hp hf =>
        rw [hp, hf]
        rfl
      | parent hp hf =>
        rw [hp]
        cases hfirst : location.firstInterior with
        | none => rfl
        | some junction =>
          cases junction with
          | parachain id => exact absurd hfirst (hf id)
          | _ => rfl

namespace MultiNativeAsset

theorem filterAssetLocation_iff {asset : MultiAsset} {origin : MultiLocation} :
    filterAssetLocation asset origin = true ↔
      ∃ location, asset.id = .concrete location ∧ location.ChainPrefix origin := by
  rw [← reserve_eq_some]
  unfold filterAssetLocation
  cases asset.reserve <;> simp

/-- An asset is accepted from the chain that its location starts with. That is one chain, and none
for a local or a more distant location. -/
theorem filterAssetLocation_exact (asset : MultiAsset) :
    (∀ origin, filterAssetLocation asset origin = true ↔
      ∃ location, asset.id = .concrete location ∧ location.ChainPrefix origin) ∧
    (∀ origin origin', filterAssetLocation asset origin = true →
      filterAssetLocation asset origin' = true → origin = origin') ∧
    ∀ location, asset.id = .concrete location →
      2 ≤ location.parents ∨
        location.parents = 0 ∧ (∀ id, location.firstInterior ≠ some (.parachain id)) →
      ∀ origin, filterAssetLocation asset origin = false := by
  refine ⟨fun _ => filterAssetLocation_iff, ?_, ?_⟩
  · intro origin origin' h h'
    obtain ⟨location, hid, hchain⟩ := filterAssetLocation_iff.mp h
    obtain ⟨location', hid', hchain'⟩ := filterAssetLocation_iff.mp h'
    obtain rfl := XcmAssetId.concrete.inj (hid.symm.trans hid')
    exact hchain.unique hchain'
  · intro location hid hfar origin
    rw [Bool.eq_false_iff]
    intro h
    obtain ⟨location', hid', hchain⟩ := filterAssetLocation_iff.mp h
    obtain rfl := XcmAssetId.concrete.inj (hid.symm.trans hid')
    rcases hfar with hp | ⟨hp, hf⟩
    · cases hchain with
      | child id hp' hf' => exact absurd (hp' ▸ hp) (by decide)
      | sibling id hp' hf' => exact absurd (hp' ▸ hp) (by decide)
      | parent hp' hf' => exact absurd (hp' ▸ hp) (by decide)
    · cases hchain with
      | child id hp' hf' => exact hf id hf'
      | sibling id hp' hf' => exact hf id hf'
      | parent hp' hf' => exact absurd (hp'.symm.trans hp) (by decide)

end MultiNativeAsset
end ZkNft
