import Mathlib.Algebra.BigOperators.Group.List.Basic
import Mathlib.Algebra.Order.Group.Nat
import Mathlib.Tactic.Ring

/-! Fractions in parts of a fixed accuracy: a product with one is rounded to the nearest integer, a
quotient is rounded down. -/

/-- The nearest integer to `n / d`, the lower one of two. -/
def nearest (n d : ℕ) : ℕ := if d < 2 * (n % d) then n / d + 1 else n / d

structure PerThing (accuracy : ℕ) where
  parts : ℕ
  le : parts ≤ accuracy
  deriving DecidableEq

namespace PerThing
variable {accuracy : ℕ}

def mul (self : PerThing accuracy) (x : ℕ) : ℕ := nearest (self.parts * x) accuracy

/-- The product with an integer, rounded up. -/
def mulCeil (self : PerThing accuracy) (x : ℕ) : ℕ := (self.parts * x + (accuracy - 1)) / accuracy

def leftFromOne (self : PerThing accuracy) : PerThing accuracy :=
  ⟨accuracy - self.parts, Nat.sub_le _ _⟩

/-- At most all of them. -/
def fromParts (accuracy parts : ℕ) : PerThing accuracy := ⟨min parts accuracy, Nat.min_le_right _ _⟩

theorem fromRational_le (accuracy p q : ℕ) : min p (max q 1) * accuracy / max q 1 ≤ accuracy := by
  apply Nat.div_le_of_le_mul
  exact Nat.mul_le_mul_right accuracy (Nat.min_le_right p (max q 1))

/-- `p / q`, which is at most one. -/
def fromRational (accuracy p q : ℕ) : PerThing accuracy :=
  ⟨min p (max q 1) * accuracy / max q 1, fromRational_le accuracy p q⟩

end PerThing

section Nearest
variable {n m d : ℕ}

/-- Rounding adds less than one half. -/
theorem two_mul_nearest_lt (hd : 0 < d) : 2 * (d * nearest n d) < 2 * n + d := by
  have hdiv := Nat.div_add_mod n d
  have hmod := Nat.mod_lt n hd
  unfold nearest
  split_ifs with hup
  · rw [Nat.mul_add]
    omega
  · omega

theorem nearest_mono (h : n ≤ m) : nearest n d ≤ nearest m d := by
  have hdiv := Nat.div_le_div_right (c := d) h
  have hn := Nat.div_add_mod n d
  have hm := Nat.div_add_mod m d
  unfold nearest
  split_ifs with hup hup'
  · omega
  · rcases Nat.lt_or_eq_of_le hdiv with hlt | heq
    · exact hlt
    · rw [heq] at hn
      omega
  · omega
  · exact hdiv

theorem nearest_mul_self (hd : 0 < d) : nearest (d * n) d = n := by
  rw [nearest, Nat.mul_mod_right, Nat.mul_div_cancel_left n hd, if_neg (by omega)]

end Nearest

namespace PerThing
variable {accuracy : ℕ} {p : PerThing accuracy} {x y : ℕ}

theorem mul_mono (h : x ≤ y) : p.mul x ≤ p.mul y :=
  nearest_mono (Nat.mul_le_mul_left p.parts h)

theorem mul_le (ha : 0 < accuracy) : p.mul x ≤ x := by
  have hle : nearest (p.parts * x) accuracy ≤ nearest (accuracy * x) accuracy :=
    nearest_mono (Nat.mul_le_mul_right x p.le)
  rwa [nearest_mul_self ha] at hle

theorem mulCeil_le (ha : 0 < accuracy) : p.mulCeil x ≤ x := by
  have hle : p.parts * x ≤ accuracy * x := Nat.mul_le_mul_right x p.le
  have hlt : p.parts * x + (accuracy - 1) < accuracy * (x + 1) := by
    rw [Nat.mul_add]
    omega
  exact Nat.le_of_lt_succ (Nat.div_lt_of_lt_mul hlt)

/-- Shares that are together at most one exceed what is shared by less than one half each. -/
theorem sum_mul_le (ha : 0 < accuracy) {shares : List (PerThing accuracy)}
    (h : (shares.map parts).sum ≤ accuracy) :
    2 * (shares.map fun p => p.mul x).sum ≤ 2 * x + shares.length := by
  have hsum : 2 * (accuracy * (shares.map fun p => p.mul x).sum) ≤
      2 * ((shares.map parts).sum * x) + accuracy * shares.length := by
    clear h
    induction shares with
    | nil => simp
    | cons p shares ih =>
      have hp : 2 * (accuracy * p.mul x) < 2 * (p.parts * x) + accuracy := two_mul_nearest_lt ha
      simp only [List.map_cons, List.sum_cons, List.length_cons, Nat.mul_add, Nat.add_mul] at ih ⊢
      omega
  have hall : (shares.map parts).sum * x ≤ accuracy * x := Nat.mul_le_mul_right x h
  apply Nat.le_of_mul_le_mul_left _ ha
  calc accuracy * (2 * (shares.map fun p => p.mul x).sum)
      = 2 * (accuracy * (shares.map fun p => p.mul x).sum) := by ring
    _ ≤ 2 * ((shares.map parts).sum * x) + accuracy * shares.length := hsum
    _ ≤ 2 * (accuracy * x) + accuracy * shares.length := by omega
    _ = accuracy * (2 * x + shares.length) := by ring

/-- A quotient is rounded down. -/
theorem fromRational_parts_mul_le (p q : ℕ) :
    (fromRational accuracy p q).parts * q ≤ p * accuracy := by
  have hdiv : (fromRational accuracy p q).parts * max q 1 ≤ min p (max q 1) * accuracy :=
    Nat.div_mul_le_self _ _
  have hq : (fromRational accuracy p q).parts * q ≤ (fromRational accuracy p q).parts * max q 1 :=
    Nat.mul_le_mul_left _ (Nat.le_max_left q 1)
  have hp : min p (max q 1) * accuracy ≤ p * accuracy :=
    Nat.mul_le_mul_right accuracy (Nat.min_le_left p _)
  omega

/-- A share of `p / q` exceeds its exact value by one half at most. -/
theorem fromRational_mul_le (ha : 0 < accuracy) (p q : ℕ) :
    q * (2 * (fromRational accuracy p q).mul x) ≤ 2 * (p * x) + q := by
  have hround : 2 * (accuracy * (fromRational accuracy p q).mul x) <
      2 * ((fromRational accuracy p q).parts * x) + accuracy := two_mul_nearest_lt ha
  have hparts := Nat.mul_le_mul_right x
    (show (fromRational accuracy p q).parts * q ≤ p * accuracy from fromRational_parts_mul_le p q)
  apply Nat.le_of_mul_le_mul_left _ ha
  calc accuracy * (q * (2 * (fromRational accuracy p q).mul x))
      = q * (2 * (accuracy * (fromRational accuracy p q).mul x)) := by ring
    _ ≤ q * (2 * ((fromRational accuracy p q).parts * x) + accuracy) :=
        Nat.mul_le_mul_left q (Nat.le_of_lt hround)
    _ = 2 * ((fromRational accuracy p q).parts * q * x) + accuracy * q := by ring
    _ ≤ 2 * (p * accuracy * x) + accuracy * q := by omega
    _ = accuracy * (2 * (p * x) + q) := by ring

/-- Parts of one whole are at most one together. -/
theorem sum_fromRational_le {ps : List ℕ} {q : ℕ} (h : ps.sum ≤ q) :
    ((ps.map fun p => fromRational accuracy p q).map parts).sum ≤ accuracy := by
  have hpos : 0 < max q 1 := by omega
  have hsum : ((ps.map fun p => fromRational accuracy p q).map parts).sum * max q 1 ≤
      ps.sum * accuracy := by
    clear h
    induction ps with
    | nil => simp
    | cons p ps ih =>
      have hdiv : (fromRational accuracy p q).parts * max q 1 ≤ min p (max q 1) * accuracy :=
        Nat.div_mul_le_self _ _
      have hp : min p (max q 1) * accuracy ≤ p * accuracy :=
        Nat.mul_le_mul_right accuracy (Nat.min_le_left p _)
      simp only [List.map_cons, List.sum_cons, Nat.add_mul] at ih ⊢
      omega
  have hq : ps.sum * accuracy ≤ accuracy * max q 1 := by
    rw [Nat.mul_comm]
    exact Nat.mul_le_mul_left accuracy (Nat.le_trans h (Nat.le_max_left q 1))
  exact Nat.le_of_mul_le_mul_right (Nat.le_trans hsum hq) hpos

end PerThing
