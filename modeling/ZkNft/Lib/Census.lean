import Mathlib.Data.Set.Card
import ZkNft.Lib.StorageMap

/-! How many keys of a storage map fall in a class, and counts of them that are kept beside the
map. -/

namespace StorageMap

variable {K V C : Type*} {cls : K → Option C} {m : StorageMap K V} {k : K} {v : V}

/-- The keys of `m` in class `c`. -/
def members (cls : K → Option C) (m : StorageMap K V) (c : C) : Set K :=
  {k | m.containsKey k = true ∧ cls k = some c}

noncomputable def population (cls : K → Option C) (m : StorageMap K V) (c : C) : ℕ :=
  (m.members cls c).ncard

/-- The map holds finitely many keys. -/
def Finite (m : StorageMap K V) : Prop := {k | m.containsKey k = true}.Finite

theorem Finite.empty : (empty : StorageMap K V).Finite := by
  simp [Finite, containsKey]

theorem Finite.members (h : m.Finite) (c : C) : (m.members cls c).Finite :=
  Set.Finite.subset h fun _ hk => hk.1

section Changes
variable [DecidableEq K]

theorem Finite.insert (h : m.Finite) : (m.insert k v).Finite := by
  apply Set.Finite.subset (Set.Finite.insert k h)
  intro j hj
  exact containsKey_insert .. |>.mp hj

theorem Finite.remove (h : m.Finite) : (m.remove k).Finite := by
  apply Set.Finite.subset h
  intro j hj
  have hj' : (m.remove k).containsKey j = true := hj
  rw [containsKey, get_remove] at hj'
  split_ifs at hj' with hjk
  · cases hj'
  · exact hj'

/-- A new key counts for its class. -/
theorem population_insert [DecidableEq C] (h : m.Finite) (hk : m.get k = none) (c : C) :
    (m.insert k v).population cls c = m.population cls c + if cls k = some c then 1 else 0 := by
  unfold population
  split_ifs with hc
  · have hset : (m.insert k v).members cls c = Insert.insert k (m.members cls c) := by
      ext j
      simp only [members, Set.mem_insert_iff, Set.mem_ofPred_eq, containsKey_insert]
      constructor
      · rintro ⟨rfl | hj, hcj⟩
        · exact .inl rfl
        · exact .inr ⟨hj, hcj⟩
      · rintro (rfl | ⟨hj, hcj⟩)
        · exact ⟨.inl rfl, hc⟩
        · exact ⟨.inr hj, hcj⟩
    have hnot : k ∉ m.members cls c := by
      intro hmem
      obtain ⟨w, hw⟩ := containsKey_iff.mp hmem.1
      rw [hk] at hw
      cases hw
    rw [hset, Set.ncard_insert_of_notMem hnot (h.members c)]
  · have hset : (m.insert k v).members cls c = m.members cls c := by
      ext j
      simp only [members, Set.mem_ofPred_eq, containsKey_insert]
      constructor
      · rintro ⟨rfl | hj, hcj⟩
        · exact absurd hcj hc
        · exact ⟨hj, hcj⟩
      · rintro ⟨hj, hcj⟩
        exact ⟨.inr hj, hcj⟩
    rw [hset, Nat.add_zero]

/-- A key that goes is missed in its class. -/
theorem population_remove [DecidableEq C] (h : m.Finite) (hk : m.get k = some v) (c : C) :
    (m.remove k).population cls c + (if cls k = some c then 1 else 0) = m.population cls c := by
  have hrest : (m.remove k).get k = none := get_remove_self _ _
  have hback : (m.remove k).insert k v = m := by
    apply StorageMap.ext
    funext j
    by_cases hj : j = k
    · rw [hj, get_insert_self, hk]
    · rw [get_insert_of_ne _ _ hj, get_remove_of_ne _ hj]
  rw [← population_insert (v := v) h.remove hrest c, hback]

/-- A key outside the class does not matter. -/
theorem population_remove_of_ne {c : C} (hc : cls k ≠ some c) :
    (m.remove k).population cls c = m.population cls c := by
  unfold population
  congr 1
  ext j
  simp only [members, Set.mem_ofPred_eq]
  constructor
  · rintro ⟨hj, hcj⟩
    have hne : j ≠ k := by
      rintro rfl
      exact hc hcj
    rw [containsKey, get_remove_of_ne _ hne] at hj
    exact ⟨hj, hcj⟩
  · rintro ⟨hj, hcj⟩
    have hne : j ≠ k := by
      rintro rfl
      exact hc hcj
    rw [containsKey, get_remove_of_ne _ hne]
    exact ⟨hj, hcj⟩

end Changes

theorem population_pos_iff (h : m.Finite) {c : C} :
    0 < m.population cls c ↔ ∃ k v, m.get k = some v ∧ cls k = some c := by
  rw [population, Set.ncard_pos (h.members c)]
  constructor
  · intro ⟨k, hk, hc⟩
    obtain ⟨v, hv⟩ := containsKey_iff.mp hk
    exact ⟨k, v, hv, hc⟩
  · intro ⟨k, v, hv, hc⟩
    exact ⟨k, containsKey_iff.mpr ⟨v, hv⟩, hc⟩

/-- The entries of `m` in the order of an iteration. -/
structure Iterates (m : StorageMap K V) (entries : List (K × V)) : Prop where
  nodup : (entries.map Prod.fst).Nodup
  mem_iff : ∀ k v, (k, v) ∈ entries ↔ m.get k = some v

theorem Finite.iterates (h : m.Finite) : ∃ entries, m.Iterates entries := by
  obtain ⟨keys, hkeys⟩ : ∃ keys : Finset K, ∀ k, k ∈ keys ↔ m.containsKey k = true :=
    ⟨Set.Finite.toFinset (s := {k | m.containsKey k = true}) h, fun k => Set.Finite.mem_toFinset _⟩
  refine ⟨keys.toList.filterMap fun k => (m.get k).map fun v => (k, v), ?_, ?_⟩
  · have hmap : ((keys.toList.filterMap fun k => (m.get k).map fun v => (k, v)).map
        Prod.fst).Sublist keys.toList := by
      generalize keys.toList = ks
      induction ks with
      | nil => exact List.Sublist.slnil
      | cons k ks ih =>
        cases hk : m.get k with
        | none =>
          rw [List.filterMap_cons_none (by rw [hk]; rfl)]
          exact ih.cons k
        | some v =>
          rw [List.filterMap_cons_some (b := (k, v)) (by rw [hk]; rfl)]
          exact ih.cons_cons k
    exact hmap.nodup (Finset.nodup_toList _)
  · intro k v
    rw [List.mem_filterMap]
    constructor
    · intro ⟨j, _, hj⟩
      obtain ⟨w, hw, heq⟩ := Option.map_eq_some_iff.mp hj
      cases heq
      exact hw
    · intro hv
      refine ⟨k, ?_, ?_⟩
      · rw [Finset.mem_toList, hkeys]
        exact containsKey_iff.mpr ⟨v, hv⟩
      · rw [hv]
        rfl

/-- An iteration meets each class as often as the map holds it. -/
theorem Iterates.countP_eq [DecidableEq K] [DecidableEq C] {entries : List (K × V)}
    (h : m.Iterates entries) (c : C) :
    (entries.map Prod.fst).countP (fun k => cls k = some c) = m.population cls c := by
  have hset : m.members cls c =
      (((entries.map Prod.fst).filter fun k => cls k = some c).toFinset : Set K) := by
    ext k
    simp only [members, Set.mem_ofPred_eq, List.coe_toFinset, List.mem_filter, List.mem_map,
      decide_eq_true_eq]
    apply and_congr_left
    intro _
    rw [containsKey_iff]
    constructor
    · intro ⟨v, hv⟩
      exact ⟨(k, v), (h.mem_iff k v).mpr hv, rfl⟩
    · rintro ⟨⟨j, v⟩, hmem, rfl⟩
      exact ⟨v, (h.mem_iff j v).mp hmem⟩
  rw [population, hset, Set.ncard_coe_finset, List.toFinset_card_of_nodup (h.nodup.filter _),
    List.countP_eq_length_filter]

end StorageMap
