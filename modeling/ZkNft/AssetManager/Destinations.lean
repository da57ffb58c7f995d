import ZkNft.AssetManager.Effects
import ZkNft.AssetManager.Sample
import ZkNft.Lib.Census

/-! The chains that tokens can be sent to are those of the registered assets. -/

namespace ZkNft
namespace AssetManager
open StorageMap

variable {R : Runtime} {s s' : State R} {paraIds : StorageMap ParaId AssetCount} {p : ParaId}

/-- The chain of a location. -/
def paraIdOf (location : AssetLocation) : Option ParaId :=
  paraIdFromMultilocation location.toMultiLocation?

namespace Runtime

/-- A chain other than the runtime's own. -/
def Foreign (R : Runtime) (p : ParaId) : Prop := paraIdOf R.nativeAssetLocation ≠ some p

instance {p : ParaId} : Decidable (R.Foreign p) := inferInstanceAs (Decidable (_ ≠ _))

end Runtime

/-- How many registered locations are on a chain. -/
noncomputable def State.located (s : State R) (p : ParaId) : ℕ :=
  s.locationAssetId.population paraIdOf p

section Counts

/-- The entry that stands for a count: none for zero. -/
def entryOf (n : ℕ) : Option AssetCount := if n = 0 then none else some (BitVec.ofNat 32 n)

theorem entryOf_zero : entryOf 0 = none := if_pos rfl

theorem entryOf_of_ne {n : ℕ} (h : n ≠ 0) : entryOf n = some (BitVec.ofNat 32 n) := if_neg h

theorem increase_self {n : ℕ} (h : paraIds.get p = entryOf n) :
    (increaseCountOfAssociatedAssets paraIds p).get p = entryOf (n + 1) := by
  rw [increaseCountOfAssociatedAssets, get_insert_self, h, entryOf_of_ne (Nat.add_one_ne_zero n),
    BitVec.ofNat_add]
  by_cases hn : n = 0
  · rw [hn, entryOf_zero]
    rfl
  · rw [entryOf_of_ne hn, Option.getD_some]
    rfl

theorem increase_of_ne {q : ParaId} (h : p ≠ q) :
    (increaseCountOfAssociatedAssets paraIds q).get p = paraIds.get p :=
  get_insert_of_ne _ _ h

/-- A count that did not wrap goes down by one. -/
theorem decrease_self {n : ℕ} (hlt : n + 1 < 2 ^ 32) (h : paraIds.get p = entryOf (n + 1)) :
    (decreaseCountOfAssociatedAssets paraIds p).get p = entryOf n := by
  rw [entryOf_of_ne (Nat.succ_ne_zero n)] at h
  have hval : (BitVec.ofNat 32 (n + 1)).toNat = n + 1 := by
    rw [BitVec.toNat_ofNat]
    exact Nat.mod_eq_of_lt hlt
  have hle : BitVec.ofNat 32 (n + 1) ≤ (1 : AssetCount) ↔ n = 0 := by
    rw [BitVec.le_def, hval]
    have hone : (1 : AssetCount).toNat = 1 := rfl
    omega
  simp only [decreaseCountOfAssociatedAssets, h, hle]
  split_ifs with hn
  · rw [get_remove_self, hn, entryOf_zero]
  · rw [get_insert_self, entryOf_of_ne hn]
    congr 1
    apply BitVec.eq_of_toNat_eq
    have hone : (1 : AssetCount) ≤ BitVec.ofNat 32 (n + 1) := by
      rw [BitVec.le_def, hval]
      have : (1 : AssetCount).toNat = 1 := rfl
      omega
    rw [BitVec.toNat_sub_of_le hone, hval, BitVec.toNat_ofNat,
      Nat.mod_eq_of_lt (Nat.lt_of_succ_lt hlt)]
    rfl

theorem decrease_of_ne {q : ParaId} (h : p ≠ q) :
    (decreaseCountOfAssociatedAssets paraIds q).get p = paraIds.get p := by
  unfold decreaseCountOfAssociatedAssets
  split
  · split_ifs
    · exact get_remove_of_ne _ h
    · exact get_insert_of_ne _ _ h
  · exact get_remove_of_ne _ h

variable {n : ℕ}

/-- A location taken up counts for its chain. -/
theorem get_taken_up (h : paraIds.get p = entryOf n) (location : AssetLocation) :
    ((paraIdOf location).elim paraIds (increaseCountOfAssociatedAssets paraIds)).get p =
      entryOf (n + if paraIdOf location = some p then 1 else 0) := by
  cases hq : paraIdOf location with
  | none => simpa using h
  | some q =>
    rw [Option.elim_some]
    by_cases hpq : p = q
    · rw [hpq, if_pos rfl]
      exact increase_self (hpq ▸ h)
    · rw [increase_of_ne hpq, if_neg fun heq => hpq (Option.some.inj heq).symm]
      exact h

/-- A location given up is missed on its chain. -/
theorem get_given_up {k : ℕ} {location : AssetLocation} (h : paraIds.get p = entryOf n)
    (hn : k + (if paraIdOf location = some p then 1 else 0) = n) (hlt : n < 2 ^ 32) :
    ((paraIdOf location).elim paraIds (decreaseCountOfAssociatedAssets paraIds)).get p =
      entryOf k := by
  cases hq : paraIdOf location with
  | none =>
    rw [hq, if_neg (Option.some_ne_none p ∘ Eq.symm)] at hn
    rw [Option.elim_none, h, ← hn, Nat.add_zero]
  | some q =>
    rw [hq] at hn
    rw [Option.elim_some]
    by_cases hpq : p = q
    · rw [hpq, if_pos rfl] at hn
      rw [hpq]
      apply decrease_self (hn ▸ hlt)
      rw [← hpq, h, hn]
    · rw [if_neg fun heq => hpq (Option.some.inj heq).symm, Nat.add_zero] at hn
      rw [decrease_of_ne hpq, h, hn]

/-- The migration counts what is on each chain but the one it skips. -/
theorem get_foldl_countLocation (hp : p ≠ 2084) (locations : List AssetLocation)
    (h : paraIds.get p = entryOf n) :
    (locations.foldl AllowedDestParaIdsMigration.countLocation paraIds).get p =
      entryOf (n + locations.countP fun l => paraIdOf l = some p) := by
  induction locations generalizing paraIds n with
  | nil => exact h
  | cons l locations ih =>
    have hstep : (AllowedDestParaIdsMigration.countLocation paraIds l).get p =
        entryOf (n + if paraIdOf l = some p then 1 else 0) := by
      have htaken := get_taken_up h l
      unfold AllowedDestParaIdsMigration.countLocation
      cases hq : paraIdOf l with
      | none =>
        rw [show paraIdFromMultilocation l.toMultiLocation? = none from hq]
        simpa using h
      | some q =>
        rw [show paraIdFromMultilocation l.toMultiLocation? = some q from hq]
        rw [hq] at htaken
        by_cases hskip : q = 2084
        · have hne : ¬ some q = some p := by
            intro heq
            exact hp ((Option.some.inj heq).symm.trans hskip)
          change (if q ≠ 2084 then _ else paraIds).get p = _
          rw [if_neg (not_not.mpr hskip), if_neg hne]
          exact h
        · change (if q ≠ 2084 then increaseCountOfAssociatedAssets paraIds q else _).get p = _
          rw [if_pos hskip]
          exact htaken
    rw [List.foldl_cons, ih hstep, List.countP_cons, Nat.add_assoc, Nat.add_comm (List.countP _ _)]
    simp only [decide_eq_true_eq]

end Counts

/-- The count of chain `p` is exact, and every asset away from the native location is found
there. -/
structure Counted (p : ParaId) (s : State R) : Prop where
  finite : s.locationAssetId.Finite
  found : ∀ a l, s.assetIdLocation.get a = some l → l ≠ R.nativeAssetLocation →
    s.locationAssetId.get l = some a
  count : s.allowedDestParaIds.get p = entryOf (s.located p)

/-- Chain `p` has less than 2 ^ 32 registered locations. -/
def State.Countable (p : ParaId) (s : State R) : Prop := s.located p < 2 ^ 32

namespace Counted

theorem of_same (h : Counted p s) (hsame : s.SameRegistry s') : Counted p s' where
  finite := hsame.locationAssetId ▸ h.finite
  found a l := by
    rw [hsame.assetIdLocation, hsame.locationAssetId]
    exact h.found a l
  count := by
    rw [hsame.allowedDestParaIds, State.located, hsame.locationAssetId]
    exact h.count

theorem genesis (hp : R.Foreign p) (startId : StandardAssetId) (world : R.World) :
    Counted p (State.genesis startId world) where
  finite := Finite.empty.insert
  found a l hl hne := by
    simp only [State.genesis, get_insert, get_empty] at hl
    split_ifs at hl
    exact absurd (Option.some.inj hl).symm hne
  count := by
    have hnone : (StorageMap.empty : StorageMap AssetLocation StandardAssetId).population
        paraIdOf p = 0 := by
      have hempty : (StorageMap.empty : StorageMap AssetLocation StandardAssetId).members
          paraIdOf p = ∅ := by
        simp [members, containsKey]
      rw [population, hempty, Set.ncard_empty]
    have hcount : (State.genesis startId world : State R).located p = 0 := by
      rw [State.located, State.genesis, population_insert Finite.empty (get_empty _), hnone,
        if_neg hp]
    rw [hcount, entryOf_zero]
    rfl

/-- A registration by a user is at the native location. -/
theorem register (h : Counted p s) (metadata : R.Metadata) (w : R.World)
    (registered : StorageMap (AssetIdMapping R.Account) StandardAssetId) :
    Counted p { s.register R.nativeAssetLocation metadata w with
      registeredAssetId := registered } where
  finite := h.finite
  found := by
    apply forall_insert
    · exact fun hne => absurd rfl hne
    · exact fun a l _ hl => h.found a l hl
  count := h.count

theorem forceRegister {location : AssetLocation} (h : Counted p s)
    (hfree : s.locationAssetId.get location = none) (metadata : R.Metadata) (w : R.World) :
    Counted p { s.register location metadata w with
      locationAssetId := s.locationAssetId.insert location s.nextAssetId
      allowedDestParaIds := (paraIdOf location).elim s.allowedDestParaIds
        (increaseCountOfAssociatedAssets s.allowedDestParaIds) } where
  finite := h.finite.insert
  found := by
    apply forall_insert
    · exact fun _ => get_insert_self _ _ _
    · intro a l _ hl hne
      have hfound := h.found a l hl hne
      have hother : l ≠ location := ne_of_get hfound hfree
      rw [get_insert_of_ne _ _ hother]
      exact hfound
  count := by
    rw [State.located, population_insert h.finite hfree]
    exact get_taken_up h.count location

/-- An asset that moves is missed on the chain it leaves and counts on the one it goes to. -/
theorem relocate {a : StandardAssetId} {old location : AssetLocation} (hp : R.Foreign p)
    (h : Counted p s) (hfits : s.Countable p) (hold : s.assetIdLocation.get a = some old)
    (hfree : s.locationAssetId.get location = none) : Counted p (s.relocate a old location) where
  finite := h.finite.remove.insert
  found := by
    apply forall_insert
    · exact fun _ => get_insert_self _ _ _
    · intro b l hba hl hne
      have hfound := h.found b l hl hne
      have hnew : l ≠ location := ne_of_get hfound hfree
      have hleft : l ≠ old := by
        rintro rfl
        have hother := h.found a l hold hne
        rw [hfound] at hother
        exact hba (Option.some.inj hother)
      change ((s.locationAssetId.remove old).insert location a).get l = some b
      rw [get_insert_of_ne _ _ hnew, get_remove_of_ne _ hleft]
      exact hfound
  count := by
    have hgone : (s.locationAssetId.remove old).get location = none := by
      rw [get_remove]
      split_ifs
      · rfl
      · exact hfree
    have hleft : (s.locationAssetId.remove old).population paraIdOf p +
        (if paraIdOf old = some p then 1 else 0) = s.located p := by
      by_cases hpara : paraIdOf old = some p
      · have hne : old ≠ R.nativeAssetLocation := by
          rintro rfl
          exact hp hpara
        exact population_remove h.finite (h.found a old hold hne) p
      · rw [population_remove_of_ne hpara, if_neg hpara]
        rfl
    have hgiven := get_given_up h.count hleft hfits
    have htaken := get_taken_up hgiven location
    rw [State.located, State.relocate, population_insert h.finite.remove hgone]
    exact htaken

theorem step {m : Move R} (hp : R.Foreign p) (h : Counted p s) (hfits : s.Countable p)
    (he : Effect s m s') : Counted p s' := by
  cases he with
  | kept hsame _ => exact h.of_same hsame
  | registered _ _ _ _ => exact h.register _ _ _
  | forceRegistered _ hfree _ _ => exact h.forceRegister (containsKey_eq_false.mp hfree) _ _
  | relocated _ hold hfree => exact relocate hp h hfits hold (containsKey_eq_false.mp hfree)
  | updated _ _ _ _ => exact ⟨h.finite, h.found, h.count⟩

end Counted

theorem Runs.counted {startId : StandardAssetId} {world : R.World} {tr : History R}
    (hp : R.Foreign p) (h : Runs (State.genesis startId world) tr s)
    (hfits : Always (State.Countable p) tr s) : Counted p s := by
  induction h with
  | nil => exact Counted.genesis hp startId world
  | @snoc tr s m hrun _ ih =>
    have hbefore : s.Countable p := hfits.2 (s, m) (by simp)
    have hprefix : Always (State.Countable p) tr s :=
      ⟨hbefore, fun x hx => hfits.2 x (List.mem_append_left _ hx)⟩
    exact (ih hprefix).step hp hbefore (m.effect s)

def Junction.IsAccount : Junction → Prop
  | .accountId32 _ _ => True
  | .accountKey20 _ _ => True
  | _ => False

/-- An account on a chain, as a destination. -/
def accountOn (p : ParaId) (account : Junction) : MultiLocation := ⟨1, [.parachain p, account], by
  simp⟩

theorem contains_accountOn {account : Junction} (h : Junction.IsAccount account) :
    contains s (accountOn p account) = s.allowedDestParaIds.containsKey p := by
  cases account with
  | accountId32 => rfl
  | accountKey20 => rfl
  | _ => exact h.elim

/-- The stored count of a chain is that of its registered locations, the destination filter takes
accounts on it exactly if there is one, and the migration counts the same. -/
structure DestinationsExact (s : State R) (p : ParaId) : Prop where
  absent : s.located p = 0 → s.allowedDestParaIds.get p = none
  count : s.located p ≠ 0 →
    ∃ count, s.allowedDestParaIds.get p = some count ∧ count.toNat = s.located p
  filter : ∀ account, Junction.IsAccount account → (contains s (accountOn p account) = true ↔
    ∃ location a, s.locationAssetId.get location = some a ∧ paraIdOf location = some p)
  iterates : ∃ entries, s.locationAssetId.Iterates entries
  recount : p ≠ 2084 → ∀ entries, s.locationAssetId.Iterates entries →
    (AllowedDestParaIdsMigration.onRuntimeUpgrade 0 entries .empty).2.get p =
      s.allowedDestParaIds.get p

/-- As long as a foreign chain does not get 2 ^ 32 registered locations, the allowed destinations
are exact for it. -/
theorem destinations_exact {startId : StandardAssetId} {world : R.World} {tr : History R}
    (h : Runs (State.genesis startId world) tr s) (hp : R.Foreign p)
    (hfits : Always (State.Countable p) tr s) : DestinationsExact s p := by
  have hcounted := Runs.counted hp h hfits
  have hget := hcounted.count
  constructor
  · intro hzero
    rw [hget, hzero, entryOf_zero]
  · intro hne
    refine ⟨BitVec.ofNat 32 (s.located p), ?_, ?_⟩
    · rw [hget, entryOf_of_ne hne]
    · rw [BitVec.toNat_ofNat]
      exact Nat.mod_eq_of_lt hfits.1
  · intro account haccount
    rw [contains_accountOn haccount, ← population_pos_iff hcounted.finite]
    change _ ↔ 0 < s.located p
    by_cases hzero : s.located p = 0
    · rw [containsKey, hget, hzero, entryOf_zero]
      simp
    · rw [containsKey, hget, entryOf_of_ne hzero]
      simp only [Option.isSome_some, true_iff]
      omega
  · exact hcounted.finite.iterates
  · intro hskip entries hentries
    have hempty : (StorageMap.empty : StorageMap ParaId AssetCount).get p = entryOf 0 := rfl
    have hcount := get_foldl_countLocation hskip (entries.map Prod.fst) hempty
    rw [Nat.zero_add, hentries.countP_eq p] at hcount
    rw [hget]
    exact hcount

/-- Each move adds at most one location. -/
theorem Runs.located_le {startId : StandardAssetId} {world : R.World} {tr : History R}
    (hp : R.Foreign p) (h : Runs (State.genesis startId world) tr s) :
    s.locationAssetId.Finite ∧ s.located p ≤ tr.length := by
  induction h with
  | nil =>
    have hgenesis := Counted.genesis hp startId world
    refine ⟨hgenesis.finite, ?_⟩
    have hget := hgenesis.count
    by_contra hne
    rw [entryOf_of_ne fun hzero => hne (Nat.le_of_eq hzero)] at hget
    cases hget
  | @snoc tr s m hrun _ ih =>
    obtain ⟨hfinite, hle⟩ := ih
    rw [List.length_append, List.length_singleton]
    have hkept : s.located p ≤ tr.length + 1 := Nat.le_succ_of_le hle
    have heffect := m.effect s
    generalize m.next s = s' at heffect
    cases heffect with
    | kept hsame _ =>
      unfold State.located
      rw [hsame.locationAssetId]
      exact ⟨hfinite, hkept⟩
    | registered _ _ _ _ => exact ⟨hfinite, hkept⟩
    | updated _ _ _ _ => exact ⟨hfinite, hkept⟩
    | forceRegistered _ hfree _ _ =>
      refine ⟨hfinite.insert, ?_⟩
      rw [State.located, population_insert hfinite (containsKey_eq_false.mp hfree)]
      have hbefore := hle
      unfold State.located at hbefore
      split_ifs <;> omega
    | @relocated a old location _ _ hfree =>
      refine ⟨hfinite.remove.insert, ?_⟩
      have hgone : (s.locationAssetId.remove old).get location = none := by
        rw [get_remove]
        split_ifs
        · rfl
        · exact containsKey_eq_false.mp hfree
      have hless : (s.locationAssetId.remove old).population paraIdOf p ≤ s.located p := by
        apply Set.ncard_le_ncard
        · intro l hl
          refine ⟨?_, hl.2⟩
          have hkey := hl.1
          rw [containsKey, get_remove] at hkey
          split_ifs at hkey
          · cases hkey
          · exact hkey
        · exact hfinite.members p
      rw [State.located, State.relocate, population_insert hfinite.remove hgone]
      split_ifs <;> omega

/-- A run of fewer than 2 ^ 32 moves wraps no count. -/
theorem Runs.countable {startId : StandardAssetId} {world : R.World} {tr : History R}
    (hp : R.Foreign p) (h : Runs (State.genesis startId world) tr s) (hlt : tr.length < 2 ^ 32) :
    Always (State.Countable p) tr s := by
  constructor
  · exact Nat.lt_of_le_of_lt (h.located_le hp).2 hlt
  · intro x hx
    obtain ⟨tr₁, tr₂, rfl⟩ := List.append_of_mem hx
    rw [List.length_append, List.length_cons] at hlt
    have hle := (Runs.located_le hp (Run.split h).1).2
    show x.1.located p < 2 ^ 32
    omega

section Witness
open AssetManager.Sample

/-- A place on chain 2000. -/
def place (i : ℕ) : AssetLocation :=
  .v1 ⟨1, [.parachain 2000, .generalIndex (BitVec.ofNat 128 i)], by simp⟩

/-- Two tokens of one chain, the second moved to another chain. -/
def settlement : List (Move runtime) :=
  [root (.forceRegisterAsset (place 0) (token 8)), root (.forceRegisterAsset (place 1) (token 9)),
    root (.updateAssetLocation 9 (chain 2001))]

theorem destinations_exact_settlement : DestinationsExact (after settlement) 2000 :=
  have hforeign : runtime.Foreign 2000 := by decide
  destinations_exact (runs settlement) hforeign
    (Runs.countable hforeign (runs settlement) (by decide))

theorem place_ne {i j : ℕ} (hi : i < 2 ^ 128) (hj : j < 2 ^ 128) (h : i ≠ j) :
    place i ≠ place j := by
  intro heq
  simp only [place, AssetLocation.v1.injEq, MultiLocation.mk.injEq, true_and,
    Junctions.mk.injEq, List.cons.injEq, Junction.generalIndex.injEq, and_true] at heq
  have hval := congrArg BitVec.toNat heq
  rw [BitVec.toNat_ofNat, BitVec.toNat_ofNat, Nat.mod_eq_of_lt hi, Nat.mod_eq_of_lt hj] at hval
  exact h hval

/-- Any number of collections can be registered on chain 2000. -/
theorem registrations {n : ℕ} (hn : n ≤ 2 ^ 32) : ∃ tr s, Runs start tr s ∧
    s.nextAssetId = BitVec.ofNat 128 (8 + n) ∧
    s.allowedDestParaIds.get 2000 = entryOf n ∧
    ∀ i, n ≤ i → i < 2 ^ 128 → s.locationAssetId.get (place i) = none := by
  induction n with
  | zero =>
    refine ⟨[], start, .nil, rfl, rfl, ?_⟩
    intro i _ _
    have hne : place i ≠ runtime.nativeAssetLocation := by
      intro heq
      simp only [place, Runtime.nativeAssetLocation, AssetLocation.v1.injEq] at heq
      have hpara : some (Junction.parachain 2000) = some (.parachain 2084) :=
        congrArg MultiLocation.firstInterior heq
      revert hpara
      decide
    change (StorageMap.empty.insert runtime.nativeAssetLocation _).get (place i) = none
    rw [get_insert_of_ne _ _ hne]
    rfl
  | succ n ih =>
    obtain ⟨tr, s, hrun, hid, hcount, hfree⟩ := ih (Nat.le_of_succ_le hn)
    have hroom : s.nextAssetId ≠ BitVec.allOnes 128 := by
      intro heq
      have hval := congrArg BitVec.toNat (hid.symm.trans heq)
      rw [BitVec.toNat_ofNat, BitVec.toNat_allOnes, Nat.mod_eq_of_lt (by omega)] at hval
      omega
    have hplace := hfree n (Nat.le_refl n) (by omega)
    have hok : (Call.forceRegisterAsset (place n) (.nonFungible (item 1 1))).dispatch .root s =
        (.ok ⟨⟩, _) :=
      forceRegisterAsset_ok.mpr ⟨s.world, rfl, containsKey_eq_false.mpr hplace, hroom, rfl, rfl⟩
    refine ⟨_, _, .snoc hrun trivial (m := root (.forceRegisterAsset (place n)
      (.nonFungible (item 1 1)))), ?_⟩
    rw [root, Move.next, hok]
    refine ⟨?_, ?_, ?_⟩
    · change s.nextAssetId + 1 = _
      rw [hid, ← Nat.add_assoc, BitVec.ofNat_add (8 + n)]
      rfl
    · exact increase_self hcount
    · intro i hi hlt
      change (s.locationAssetId.insert (place n) s.nextAssetId).get (place i) = none
      rw [get_insert_of_ne _ _ (place_ne hlt (by omega) (by omega))]
      exact hfree i (by omega) hlt

/-- The migration never touches the chain it skips. -/
theorem get_foldl_skipped (paraIds : StorageMap ParaId AssetCount)
    (locations : List AssetLocation) :
    (locations.foldl AllowedDestParaIdsMigration.countLocation paraIds).get 2084 =
      paraIds.get 2084 := by
  induction locations generalizing paraIds with
  | nil => rfl
  | cons l locations ih =>
    rw [List.foldl_cons, ih, AllowedDestParaIdsMigration.countLocation]
    split
    · split_ifs with hskip
      · exact increase_of_ne (Ne.symm hskip)
      · rfl
    · rfl

/-- The runtime on another chain. -/
def elsewhere : Runtime := { runtime with selfReserve := .sibling 2104 }

def abroad : State elsewhere :=
  Move.next (State.genesis 8 start.world)
    (.call .root (.forceRegisterAsset (chain 2084) (.nonFungible (item 1 1))))

/-- With 2 ^ 32 locations on a chain its count is back at zero and stored; and on another chain
than 2084 the migration misses the assets of 2084. -/
theorem destinations_inexact :
    (∃ tr s, Runs start tr s ∧ runtime.Foreign 2000 ∧ s.allowedDestParaIds.get 2000 = some 0 ∧
      ¬ DestinationsExact s 2000) ∧
    ∃ tr, Runs (State.genesis 8 start.world : State elsewhere) tr abroad ∧ elsewhere.Foreign 2084 ∧
      ∃ entries, abroad.locationAssetId.Iterates entries ∧
        (AllowedDestParaIdsMigration.onRuntimeUpgrade 0 entries .empty).2.get 2084 ≠
          abroad.allowedDestParaIds.get 2084 := by
  constructor
  · obtain ⟨tr, s, hrun, -, hcount, -⟩ := registrations (Nat.le_refl (2 ^ 32))
    have hzero : s.allowedDestParaIds.get 2000 = some 0 := hcount
    refine ⟨tr, s, hrun, by decide, hzero, ?_⟩
    intro hexact
    by_cases hnone : s.located 2000 = 0
    · have habsent := hexact.absent hnone
      rw [hzero] at habsent
      cases habsent
    · obtain ⟨count, hget, hval⟩ := hexact.count hnone
      rw [hzero] at hget
      obtain rfl := Option.some.inj hget
      exact hnone hval.symm
  · have hrun : Runs (State.genesis 8 start.world : State elsewhere) _ abroad := .snoc .nil trivial
    have hforeign : elsewhere.Foreign 2084 := by decide
    obtain ⟨entries, hentries⟩ := (hrun.located_le hforeign).1.iterates
    refine ⟨_, hrun, hforeign, entries, hentries, ?_⟩
    have hstored : abroad.allowedDestParaIds.get 2084 = some 1 := by decide +kernel
    have hmissed := get_foldl_skipped .empty (entries.map Prod.fst)
    rw [hstored]
    intro heq
    have hsome := hmissed.symm.trans heq
    cases hsome

end Witness

end AssetManager
end ZkNft
