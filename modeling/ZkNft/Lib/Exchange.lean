import Mathlib.Algebra.BigOperators.Group.List.Basic
import Mathlib.Data.List.Nodup
import Mathlib.Tactic.Common
import Mathlib.Algebra.GroupWithZero.Nat

/-! Lists whose entries have distinct keys, and the exchange of some entries for others. -/

namespace Keyed
variable {α κ : Type*} {key : α → κ} {l l' m m' o o' n n' c : List α} {x : α}

/-- No two entries have the same key. -/
def Distinct (key : α → κ) (l : List α) : Prop := (l.map key).Nodup

/-- `l'` holds `n` where `l` holds `o`, in whatever order. -/
def Exchange (o n l l' : List α) : Prop := ∃ rest, l.Perm (o ++ rest) ∧ l'.Perm (n ++ rest)

theorem Distinct.perm (h : Distinct key l) (hp : l.Perm l') : Distinct key l' :=
  (hp.map key).nodup_iff.mp h

theorem distinct_cons : Distinct key (x :: l) ↔ (∀ y ∈ l, key y ≠ key x) ∧ Distinct key l := by
  simp [Distinct, List.nodup_cons, List.mem_map]

theorem Distinct.sublist (h : Distinct key l) (hs : l'.Sublist l) : Distinct key l' :=
  List.Nodup.sublist (hs.map key) h

/-- The entry of a key is unique. -/
theorem Distinct.eq_of_key (h : Distinct key l) {y : α} (hx : x ∈ l) (hy : y ∈ l)
    (hkey : key x = key y) : x = y :=
  List.inj_on_of_nodup_map h hx hy hkey

/-- An entry can be put first by taking its key out of the list. -/
theorem Distinct.perm_cons_filter [DecidableEq κ] (h : Distinct key l) (hx : x ∈ l) :
    l.Perm (x :: l.filter fun y => key y ≠ key x) := by
  induction l with
  | nil => cases hx
  | cons y l ih =>
    have ⟨hne, hl⟩ := distinct_cons.mp h
    rcases List.mem_cons.mp hx with rfl | hx
    · have hkeep : (l.filter fun y => key y ≠ key x) = l := by
        apply List.filter_eq_self.mpr
        intro y hy
        simpa using hne y hy
      rw [List.filter_cons_of_neg (by simp), hkeep]
    · have hxy : key y ≠ key x := (hne x hx).symm
      rw [List.filter_cons_of_pos (by simpa using hxy)]
      exact ((ih hl hx).cons y).trans (List.Perm.swap x y _)

namespace Exchange

theorem of_perm (hl : l.Perm (o ++ c)) (hl' : l'.Perm (n ++ c)) : Exchange o n l l' :=
  ⟨c, hl, hl'⟩

theorem insert (h : l'.Perm (x :: l)) : Exchange [] [x] l l' := ⟨l, .refl l, h⟩

theorem remove (h : l.Perm (x :: l')) : Exchange [x] [] l l' := ⟨l', h, .refl l'⟩

theorem append (h : Exchange o n l l') (h' : Exchange o' n' m m') :
    Exchange (o ++ o') (n ++ n') (l ++ m) (l' ++ m') := by
  obtain ⟨r, hl, hl'⟩ := h
  obtain ⟨r', hm, hm'⟩ := h'
  have hswap : ∀ a b : List α, ((a ++ r) ++ (b ++ r')).Perm ((a ++ b) ++ (r ++ r')) := by
    intro a b
    rw [List.append_assoc, List.append_assoc]
    apply List.Perm.append_left
    rw [← List.append_assoc, ← List.append_assoc]
    exact List.perm_append_comm.append_right r'
  exact ⟨r ++ r', (hl.append hm).trans (hswap o o'), (hl'.append hm').trans (hswap n n')⟩

theorem refl (l : List α) : Exchange [] [] l l := ⟨l, .refl l, .refl l⟩

theorem append_right (h : Exchange o n l l') (m : List α) : Exchange o n (l ++ m) (l' ++ m) := by
  simpa using h.append (refl m)

theorem append_left (h : Exchange o n l l') (m : List α) : Exchange o n (m ++ l) (m ++ l') := by
  simpa using (refl m).append h

theorem perm_right (h : Exchange o n l m) (hp : l'.Perm m) : Exchange o n l l' := by
  obtain ⟨r, hl, hm⟩ := h
  exact ⟨r, hl, hp.trans hm⟩

/-- Entries on both sides stay where they are. -/
theorem cancel (h : Exchange o' n' l l') (ho : o'.Perm (o ++ c)) (hn : n'.Perm (n ++ c)) :
    Exchange o n l l' := by
  obtain ⟨r, hl, hl'⟩ := h
  refine ⟨c ++ r, ?_, ?_⟩
  · rw [← List.append_assoc]
    exact hl.trans (ho.append_right r)
  · rw [← List.append_assoc]
    exact hl'.trans (hn.append_right r)

theorem sum (h : Exchange o n l l') (f : α → ℕ) :
    (l'.map f).sum + (o.map f).sum = (l.map f).sum + (n.map f).sum := by
  obtain ⟨r, hl, hl'⟩ := h
  rw [(hl.map f).sum_eq, (hl'.map f).sum_eq, List.map_append, List.map_append, List.sum_append,
    List.sum_append]
  omega

theorem length (h : Exchange o n l l') : l'.length + o.length = l.length + n.length := by
  obtain ⟨r, hl, hl'⟩ := h
  rw [hl.length_eq, hl'.length_eq, List.length_append, List.length_append]
  omega

theorem mem_iff (h : Exchange o n l l') (hl : Distinct key l) :
    x ∈ l' ↔ x ∈ n ∨ x ∈ l ∧ ∀ y ∈ o, key y ≠ key x := by
  obtain ⟨r, hlr, hlr'⟩ := h
  have hsplit := hl.perm hlr
  unfold Distinct at hsplit
  rw [List.map_append, List.nodup_append] at hsplit
  obtain ⟨-, -, hcross⟩ := hsplit
  rw [hlr'.mem_iff, hlr.mem_iff, List.mem_append, List.mem_append]
  constructor
  · rintro (hn | hr)
    · exact .inl hn
    · refine .inr ⟨.inr hr, ?_⟩
      intro y hy
      exact hcross _ (List.mem_map_of_mem hy) _ (List.mem_map_of_mem hr)
  · rintro (hn | ⟨ho | hr, hne⟩)
    · exact .inl hn
    · exact absurd rfl (hne x ho)
    · exact .inr hr

/-- The keys stay distinct if the new entries have new keys or those of the old ones. -/
theorem distinct (h : Exchange o n l l') (hl : Distinct key l) (hn : Distinct key n)
    (hkeys : ∀ x ∈ n, ∀ y ∈ l, key y = key x → ∃ z ∈ o, key z = key x) : Distinct key l' := by
  obtain ⟨r, hlr, hlr'⟩ := h
  have hsplit := hl.perm hlr
  unfold Distinct at hsplit
  rw [List.map_append, List.nodup_append] at hsplit
  obtain ⟨-, hr, hcross⟩ := hsplit
  refine Distinct.perm ?_ hlr'.symm
  unfold Distinct
  rw [List.map_append, List.nodup_append]
  refine ⟨hn, hr, ?_⟩
  rintro _ hk _ hk' rfl
  obtain ⟨x, hx, hxk⟩ := List.mem_map.mp hk
  obtain ⟨y, hy, hyk⟩ := List.mem_map.mp hk'
  obtain ⟨z, hz, hzk⟩ := hkeys x hx y (hlr.mem_iff.mpr (List.mem_append_right o hy))
    (hyk.trans hxk.symm)
  exact hcross _ (List.mem_map_of_mem hz) _ (List.mem_map_of_mem hy)
    (hzk.trans (hxk.trans hyk.symm))

/-- An entry is changed in place. -/
theorem map [DecidableEq κ] (hl : Distinct key l) (hx : x ∈ l) (f : α → α) :
    Exchange [x] [f x] l (l.map fun y => if key y = key x then f y else y) := by
  have hperm := hl.perm_cons_filter hx
  refine ⟨_, hperm, ?_⟩
  refine (hperm.map _).trans ?_
  rw [List.map_cons, if_pos rfl]
  have hkeep : ∀ y ∈ l.filter fun y => key y ≠ key x,
      (if key y = key x then f y else y) = id y := by
    intro y hy
    exact if_neg (by simpa using (List.mem_filter.mp hy).2)
  rw [List.map_congr_left hkeep, List.map_id]
  exact .refl _

end Exchange
end Keyed
