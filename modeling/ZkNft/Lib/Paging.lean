import Mathlib.Data.List.Basic
import Mathlib.Tactic.Common

/-! Reading append-only lists in pages: one list from an index on, and several lists one after the
other within a common budget. -/

/-- `part` is the next page of `l` behind `idx`; `more` says whether entries are left. -/
structure Page {V : Type*} (l : List V) (idx budget : ℕ) (more : Bool) (part : List V) : Prop where
  within : part.length ≤ budget
  next : l.take idx ++ part <+: l
  complete : more = false → l.take idx ++ part = l
  full : more = true → part.length = budget

namespace Page
variable {V : Type*} {l part : List V} {idx budget : ℕ} {more : Bool} {v : V}

/-- Nothing more is read once the budget is used up. -/
theorem stop : Page l idx 0 (decide (idx < l.length)) [] where
  within := Nat.le_refl 0
  next := by
    rw [List.append_nil]
    exact List.take_prefix idx l
  complete h := by
    rw [decide_eq_false_iff_not, Nat.not_lt] at h
    rw [List.append_nil, List.take_of_length_le h]
  full _ := rfl

theorem finish (h : l.length ≤ idx) : Page l idx budget false [] where
  within := Nat.zero_le budget
  next := by
    rw [List.append_nil]
    exact List.take_prefix idx l
  complete _ := by rw [List.append_nil, List.take_of_length_le h]
  full h := by cases h

theorem cons (hv : l[idx]? = some v) (h : Page l (idx + 1) budget more part) :
    Page l idx (budget + 1) more (v :: part) := by
  have htake : l.take idx ++ v :: part = l.take (idx + 1) ++ part := by
    rw [List.take_add_one, hv, List.append_assoc]
    rfl
  constructor
  · exact Nat.succ_le_succ h.within
  · rw [htake]
    exact h.next
  · rw [htake]
    exact h.complete
  · intro hmore
    rw [List.length_cons, h.full hmore]

end Page

/-- `parts` are the next pages of the lists of `keys`. -/
structure Pages {K V : Type*} (l : K → List V) (idx : K → ℕ) (keys : List K) (budget : ℕ)
    (more : Bool) (parts : K → List V) : Prop where
  within : (keys.flatMap parts).length ≤ budget
  next : ∀ k ∈ keys, (l k).take (idx k) ++ parts k <+: l k
  complete : more = false → ∀ k ∈ keys, (l k).take (idx k) ++ parts k = l k
  full : more = true → (keys.flatMap parts).length = budget

namespace Pages
variable {K V : Type*} {l parts : K → List V} {idx : K → ℕ} {keys : List K}
  {k : K} {budget : ℕ} {more : Bool} {part : List V}

theorem nil : Pages l idx [] budget false parts where
  within := Nat.zero_le budget
  next k hk := by cases hk
  complete _ k hk := by cases hk
  full h := by cases h

variable [DecidableEq K]

theorem update_of_mem {j : K} (hk : k ∉ keys) (hj : j ∈ keys) :
    Function.update parts k part j = parts j := by
  apply Function.update_of_ne
  rintro rfl
  exact hk hj

theorem flatMap_update (hk : k ∉ keys) :
    (k :: keys).flatMap (Function.update parts k part) = part ++ keys.flatMap parts := by
  have hrest : keys.flatMap (Function.update parts k part) = keys.flatMap parts := by
    apply List.flatMap_congr
    intro j hj
    exact update_of_mem hk hj
  rw [List.flatMap_cons, Function.update_self, hrest]

/-- A list that is read to its end leaves the rest of the budget to the next ones. -/
theorem cons (hk : k ∉ keys) (h : Page (l k) (idx k) budget false part)
    (hrest : Pages l idx keys (budget - part.length) more parts) :
    Pages l idx (k :: keys) budget more (Function.update parts k part) := by
  have hwithin := h.within
  constructor
  · have hle := hrest.within
    rw [flatMap_update hk, List.length_append]
    omega
  · intro j hj
    rcases List.mem_cons.mp hj with rfl | hj
    · rw [Function.update_self]
      exact h.next
    · rw [update_of_mem hk hj]
      exact hrest.next j hj
  · intro hmore j hj
    rcases List.mem_cons.mp hj with rfl | hj
    · rw [Function.update_self]
      exact h.complete rfl
    · rw [update_of_mem hk hj]
      exact hrest.complete hmore j hj
  · intro hmore
    have heq := hrest.full hmore
    rw [flatMap_update hk, List.length_append]
    omega

/-- Where entries are left in one list, the ones behind it are not read. -/
theorem cut (hk : k ∉ keys) (h : Page (l k) (idx k) budget true part) :
    Pages l idx (k :: keys) budget true (Function.update (fun _ => []) k part) := by
  have hflat : (k :: keys).flatMap (Function.update (fun _ => []) k part) = part := by
    rw [flatMap_update hk]
    simp
  constructor
  · rw [hflat]
    exact h.within
  · intro j hj
    rcases List.mem_cons.mp hj with rfl | hj
    · rw [Function.update_self]
      exact h.next
    · rw [update_of_mem hk hj, List.append_nil]
      exact List.take_prefix _ _
  · intro h
    cases h
  · intro _
    rw [hflat]
    exact h.full rfl

end Pages
