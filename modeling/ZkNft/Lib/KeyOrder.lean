import Mathlib.Data.List.Nodup
import Mathlib.Logic.Function.Iterate
import Mathlib.Order.Basic
import Mathlib.Tactic.Common

/-! Maps that are walked through in the order of their hashed keys. -/

/-- The entries of a map, by increasing rank of the key. -/
@[ext] structure KeyOrder {K : Type*} (rank : K → ℕ) (V : Type*) where
  entries : List (K × V)
  sorted : entries.Pairwise fun a b => rank a.1 < rank b.1

namespace KeyOrder

variable {K V : Type*} {rank : K → ℕ}

def empty : KeyOrder rank V := ⟨[], .nil⟩

def get [DecidableEq K] (m : KeyOrder rank V) (k : K) : Option V :=
  (m.entries.find? fun e => e.1 = k).map Prod.snd

/-- The place of a key is before the first entry of a higher rank. -/
def place (rank : K → ℕ) (k : K) (v : V) : List (K × V) → List (K × V)
  | [] => [(k, v)]
  | e :: es =>
    if rank k < rank e.1 then (k, v) :: e :: es
    else if rank k = rank e.1 then (k, v) :: es
    else e :: place rank k v es

theorem mem_place {k : K} {v : V} {es : List (K × V)} {e : K × V} (h : e ∈ place rank k v es) :
    e = (k, v) ∨ e ∈ es := by
  induction es with
  | nil => exact Or.inl (List.mem_singleton.mp h)
  | cons e' es ih =>
    unfold place at h
    split_ifs at h
    · exact List.mem_cons.mp h
    · rcases List.mem_cons.mp h with heq | hmem
      · exact Or.inl heq
      · exact Or.inr (List.mem_cons_of_mem _ hmem)
    · rcases List.mem_cons.mp h with heq | hmem
      · exact Or.inr (heq ▸ List.mem_cons_self)
      · rcases ih hmem with heq | hmem
        · exact Or.inl heq
        · exact Or.inr (List.mem_cons_of_mem _ hmem)

theorem place_sorted (k : K) (v : V) {es : List (K × V)}
    (h : es.Pairwise fun a b => rank a.1 < rank b.1) :
    (place rank k v es).Pairwise fun a b => rank a.1 < rank b.1 := by
  induction es with
  | nil => exact List.pairwise_singleton _ _
  | cons e es ih =>
    obtain ⟨hhead, htail⟩ := List.pairwise_cons.mp h
    unfold place
    split_ifs with hlt heq
    · apply List.Pairwise.cons _ h
      intro e' he'
      rcases List.mem_cons.mp he' with rfl | hmem
      · exact hlt
      · exact Nat.lt_trans hlt (hhead e' hmem)
    · apply List.Pairwise.cons _ htail
      intro e' hmem
      have hgt := hhead e' hmem
      simp only [heq]
      exact hgt
    · apply List.Pairwise.cons _ (ih htail)
      intro e' he'
      rcases mem_place he' with rfl | hmem
      · simp only
        omega
      · exact hhead e' hmem

def insert (m : KeyOrder rank V) (k : K) (v : V) : KeyOrder rank V :=
  ⟨place rank k v m.entries, place_sorted k v m.sorted⟩

def drop (m : KeyOrder rank V) (n : ℕ) : KeyOrder rank V :=
  ⟨m.entries.drop n, m.sorted.sublist (List.drop_sublist n m.entries)⟩

section Lookup
variable [DecidableEq K]

@[simp] theorem get_empty (k : K) : (empty : KeyOrder rank V).get k = none := rfl

theorem find?_place (hrank : Function.Injective rank) (k k' : K) (v : V) (es : List (K × V)) :
    (place rank k v es).find? (fun e => e.1 = k') =
      if k' = k then some (k, v) else es.find? fun e => e.1 = k' := by
  induction es with
  | nil =>
    unfold place
    by_cases hk : k' = k <;> simp [hk, eq_comm]
  | cons e es ih =>
    unfold place
    by_cases hk : k' = k
    · rw [if_pos hk]
      subst hk
      split_ifs with hlt heq
      · simp
      · simp
      · have hne : ¬ e.1 = k' := fun hek => heq (congrArg rank hek.symm)
        rw [List.find?_cons_of_neg (by simpa using hne), ih, if_pos rfl]
    · have hne : ¬ k = k' := Ne.symm hk
      rw [if_neg hk]
      split_ifs with hlt heq
      · rw [List.find?_cons_of_neg (by simpa using hne)]
      · have hne' : ¬ e.1 = k' := hrank heq ▸ hne
        rw [List.find?_cons_of_neg (by simpa using hne),
          List.find?_cons_of_neg (by simpa using hne')]
      · rw [List.find?_cons, List.find?_cons, ih, if_neg hk]

theorem get_insert (hrank : Function.Injective rank) (m : KeyOrder rank V) (k k' : K) (v : V) :
    (m.insert k v).get k' = if k' = k then some v else m.get k' := by
  unfold get insert
  rw [find?_place hrank]
  split_ifs <;> rfl

end Lookup

end KeyOrder
