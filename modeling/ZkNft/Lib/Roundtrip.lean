import ZkNft.Lib.Exec

/-! Fallible conversions between two representations of a value. -/

universe u
variable {ε ε' α β : Type u}

/-- `dec` undoes `enc` and `enc` undoes `dec`. -/
def Mutual (enc : α → Except ε β) (dec : β → Except ε' α) : Prop :=
  ∀ a b, enc a = .ok b ↔ dec b = .ok a

variable {enc : α → Except ε β} {dec : β → Except ε' α}

namespace Mutual

theorem list (h : Mutual enc dec) : Mutual (List.mapM enc) (List.mapM dec) := by
  intro as bs
  rw [Exec.except_mapM_eq_ok, Exec.except_mapM_eq_ok]
  constructor
  · intro hrel
    have hswap : List.Forall₂ (flip fun b a => dec b = .ok a) as bs :=
      hrel.imp fun a b hb => (h a b).mp hb
    exact hswap.flip
  · intro hrel
    have hswap : List.Forall₂ (flip fun a b => enc a = .ok b) bs as :=
      hrel.imp fun b a ha => (h a b).mpr ha
    exact hswap.flip

theorem option (h : Mutual enc dec) : Mutual (Option.mapM enc) (Option.mapM dec) := by
  intro a b
  cases a with
  | none =>
    rw [Exec.except_mapM_none]
    cases b with
    | none => exact iff_of_true rfl (Exec.except_mapM_none.mpr rfl)
    | some b =>
      rw [Exec.except_mapM_some]
      simp
  | some a =>
    rw [Exec.except_mapM_some]
    cases b with
    | none =>
      rw [Exec.except_mapM_none]
      simp
    | some b =>
      rw [Exec.except_mapM_some]
      simp [h a b]

end Mutual
