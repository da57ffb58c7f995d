import Mathlib.Data.List.Nodup
import Mathlib.Order.Basic
import Mathlib.Tactic.Common

/-! Storage maps, and the view of an integer-keyed map as an append-only list. -/

/-- The keys a storage map holds, with their values. -/
@[ext] structure StorageMap (K V : Type*) where
  get : K → Option V

namespace StorageMap

variable {K V : Type*}

def empty : StorageMap K V := ⟨fun _ => none⟩

def containsKey (m : StorageMap K V) (k : K) : Bool := (m.get k).isSome

def insert [DecidableEq K] (m : StorageMap K V) (k : K) (v : V) : StorageMap K V :=
  ⟨fun j => if j = k then some v else m.get j⟩

@[simp] theorem get_empty (k : K) : (empty : StorageMap K V).get k = none := rfl

theorem containsKey_iff {m : StorageMap K V} {k : K} :
    m.containsKey k = true ↔ ∃ v, m.get k = some v := Option.isSome_iff_exists

theorem containsKey_eq_false {m : StorageMap K V} {k : K} :
    m.containsKey k = false ↔ m.get k = none :=
  Option.isSome_eq_false_iff.trans Option.isNone_iff_eq_none

/-- A map of marks is the set of its keys. -/
theorem ext_of_containsKey {m m' : StorageMap K Unit}
    (h : ∀ k, m.containsKey k = true ↔ m'.containsKey k = true) : m = m' := by
  ext k : 2
  have hk : (m.get k).isSome = true ↔ (m'.get k).isSome = true := h k
  cases hm : m.get k <;> cases hm' : m'.get k <;> simp_all

theorem ne_of_get {m : StorageMap K V} {j k : K} {v : V} (hj : m.get j = some v)
    (hk : m.get k = none) : j ≠ k := by
  intro h
  rw [h, hk] at hj
  cases hj

section Insert
variable [DecidableEq K] (m : StorageMap K V) (j k : K) (v : V)

theorem get_insert : (m.insert k v).get j = if j = k then some v else m.get j := rfl

@[simp] theorem get_insert_self : (m.insert k v).get k = some v := if_pos rfl

theorem get_insert_of_ne {j k : K} (h : j ≠ k) : (m.insert k v).get j = m.get j := if_neg h

theorem containsKey_insert :
    (m.insert k v).containsKey j = true ↔ j = k ∨ m.containsKey j = true := by
  simp only [containsKey, get_insert]
  split <;> simp [*]

theorem containsKey_insert_if :
    (m.insert k v).containsKey j = if j = k then true else m.containsKey j := by
  unfold containsKey
  rw [get_insert]
  split_ifs <;> rfl

/-- Writing what is there changes nothing. -/
theorem insert_of_get {m : StorageMap K V} {k : K} {v : V} (h : m.get k = some v) :
    m.insert k v = m := by
  apply StorageMap.ext
  funext j
  rw [get_insert]
  split_ifs with hj
  · rw [hj, h]
  · rfl

theorem insert_insert (m : StorageMap K V) (k : K) (v w : V) :
    (m.insert k v).insert k w = m.insert k w := by
  apply StorageMap.ext
  funext j
  rw [get_insert, get_insert, get_insert]
  split_ifs <;> rfl

/-- What every entry has: the new one, and those under other keys. -/
theorem forall_insert {P : K → V → Prop} {m : StorageMap K V} {k : K} {v : V} (hk : P k v)
    (h : ∀ j w, j ≠ k → m.get j = some w → P j w) :
    ∀ j w, (m.insert k v).get j = some w → P j w := by
  intro j w hw
  by_cases hj : j = k
  · rw [hj, get_insert_self] at hw
    rw [hj, ← Option.some.inj hw]
    exact hk
  · rw [get_insert_of_ne _ _ hj] at hw
    exact h j w hj hw

end Insert

def remove [DecidableEq K] (m : StorageMap K V) (k : K) : StorageMap K V :=
  ⟨fun j => if j = k then none else m.get j⟩

section Remove
variable [DecidableEq K] (m : StorageMap K V) (j k : K)

theorem get_remove : (m.remove k).get j = if j = k then none else m.get j := rfl

@[simp] theorem get_remove_self : (m.remove k).get k = none := if_pos rfl

theorem get_remove_of_ne {j k : K} (h : j ≠ k) : (m.remove k).get j = m.get j := if_neg h

theorem containsKey_remove_if :
    (m.remove k).containsKey j = if j = k then false else m.containsKey j := by
  unfold containsKey
  rw [get_remove]
  split_ifs <;> rfl

theorem forall_remove {P : K → V → Prop} {m : StorageMap K V} {k : K}
    (h : ∀ j w, j ≠ k → m.get j = some w → P j w) :
    ∀ j w, (m.remove k).get j = some w → P j w := by
  intro j w hw
  have hj : j ≠ k := by
    rintro rfl
    rw [get_remove_self] at hw
    cases hw
  rw [get_remove_of_ne _ hj] at hw
  exact h j w hj hw

end Remove

/-- `f` holds exactly the entries of `l`, the `i`-th one under key `i`. -/
def Lists (f : ℕ → Option V) (l : List V) : Prop := ∀ i, f i = l[i]?

/-- `l` written over `f` from key `n` on. -/
def overlay (f : ℕ → Option V) (n : ℕ) (l : List V) (i : ℕ) : Option V :=
  if n ≤ i ∧ i < n + l.length then l[i - n]? else f i

theorem overlay_nil (f : ℕ → Option V) (n : ℕ) : overlay f n [] = f := by
  funext i
  refine if_neg fun ⟨h₁, h₂⟩ => ?_
  simp only [List.length_nil] at h₂
  omega

/-- Writing one entry first, then the rest behind it. -/
theorem overlay_cons (f : ℕ → Option V) (n : ℕ) (v : V) (l : List V) :
    overlay (fun i => if i = n then some v else f i) (n + 1) l = overlay f n (v :: l) := by
  funext i
  simp only [overlay, List.length_cons]
  by_cases hi : i = n
  · subst hi
    rw [if_neg (by omega), if_pos rfl, if_pos (by omega), Nat.sub_self]
    rfl
  · rw [if_neg hi]
    by_cases hr : n + 1 ≤ i ∧ i < n + 1 + l.length
    · have hk : i - n = i - (n + 1) + 1 := by omega
      rw [if_pos hr, if_pos (by omega), hk, List.getElem?_cons_succ]
    · rw [if_neg hr, if_neg (by omega)]

theorem overlay_append (f : ℕ → Option V) (n : ℕ) (l l' : List V) :
    overlay (overlay f n l) (n + l.length) l' = overlay f n (l ++ l') := by
  induction l generalizing f n with
  | nil => simp [overlay_nil]
  | cons v l ih =>
    have hn : n + (v :: l).length = n + 1 + l.length := by
      simp only [List.length_cons]
      omega
    rw [← overlay_cons, hn, ih, overlay_cons, List.cons_append]

namespace Lists
variable {f g : ℕ → Option V} {l l' : List V}

theorem nil : Lists (fun _ => (none : Option V)) [] := fun _ => by simp

theorem isSome_iff (h : Lists f l) (i : ℕ) : (f i).isSome = true ↔ i < l.length := by
  rw [h i]
  simp

theorem mem_iff (h : Lists f l) (v : V) : v ∈ l ↔ ∃ i, f i = some v := by
  simp only [h _, List.mem_iff_getElem?]

/-- Writing the next free key appends. -/
theorem append {v : V} (h : Lists f l) (hv : g l.length = some v)
    (hg : ∀ i, i ≠ l.length → g i = f i) : Lists g (l ++ [v]) := by
  intro i
  rcases Nat.lt_trichotomy i l.length with hi | rfl | hi
  · rw [hg i (Nat.ne_of_lt hi), h i, List.getElem?_append_left hi]
  · simp [hv]
  · rw [hg i (Nat.ne_of_gt hi), h i, List.getElem?_eq_none (Nat.le_of_lt hi),
      List.getElem?_eq_none (by simp only [List.length_append, List.length_singleton]; omega)]

/-- Writing a list behind the last key appends it. -/
theorem overlay_eq (h : Lists f l) : Lists (overlay f l.length l') (l ++ l') := by
  intro i
  unfold overlay
  by_cases hi : i < l.length
  · rw [if_neg (by omega), h i, List.getElem?_append_left hi]
  · rw [List.getElem?_append_right (by omega)]
    split_ifs with hr
    · rfl
    · rw [h i, List.getElem?_eq_none (by omega), List.getElem?_eq_none (by omega)]

/-- Entries of a prefix keep their keys. -/
theorem get_of_prefix (h : Lists f l) (h' : Lists g l') (hp : l <+: l') {i : ℕ} {v : V}
    (hi : f i = some v) : g i = some v := by
  obtain ⟨t, rfl⟩ := hp
  rw [h i] at hi
  obtain ⟨hlt, -⟩ := List.getElem?_eq_some_iff.mp hi
  rw [h' i, List.getElem?_append_left hlt, hi]

/-- Where no two entries agree on `key`, each value of it has one index. -/
theorem index_unique {W : Type*} {key : V → W} (h : Lists f l) (hn : (l.map key).Nodup) {i j : ℕ}
    {v w : V} (hi : f i = some v) (hj : f j = some w) (he : key v = key w) : i = j := by
  have hi' : (l.map key)[i]? = some (key v) := by
    rw [List.getElem?_map, ← h i, hi]
    rfl
  have hj' : (l.map key)[j]? = some (key v) := by
    rw [List.getElem?_map, ← h j, hj, he]
    rfl
  obtain ⟨hlt, -⟩ := List.getElem?_eq_some_iff.mp hi'
  exact (List.getElem?_inj hlt hn).mp (hi'.trans hj'.symm)

theorem nodup_of_unique {W : Type*} {key : V → W} (h : Lists f l)
    (hu : ∀ i j v w, f i = some v → f j = some w → key v = key w → i = j) :
    (l.map key).Nodup := by
  rw [List.nodup_iff_getElem?_ne_getElem?]
  intro i j hij hj heq
  rw [List.length_map] at hj
  have hi : i < l.length := Nat.lt_trans hij hj
  have hfi : f i = some l[i] := by rw [h i, List.getElem?_eq_getElem hi]
  have hfj : f j = some l[j] := by rw [h j, List.getElem?_eq_getElem hj]
  rw [List.getElem?_map, List.getElem?_map, List.getElem?_eq_getElem hi,
    List.getElem?_eq_getElem hj] at heq
  exact Nat.ne_of_lt hij (hu i j _ _ hfi hfj (Option.some.inj heq))

/-- A list whose entries all keep their keys is a prefix. -/
theorem prefix_of_kept (h : Lists f l) (h' : Lists g l')
    (hkept : ∀ i v, f i = some v → g i = some v) : l <+: l' := by
  rw [List.prefix_iff_getElem?]
  intro i hi
  rw [← h' i]
  exact hkept i _ (by rw [h i, List.getElem?_eq_getElem hi])

end Lists

end StorageMap
