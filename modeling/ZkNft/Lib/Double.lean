import Mathlib.Data.Nat.Notation
import Mathlib.Tactic.Common
import Mathlib.Tactic.NormNum

/-! Natural numbers in double precision. Below `2 ^ 53` every one of them is a double. -/

namespace Double

/-- The distance of the doubles around `n`. -/
def ulp (n : ℕ) : ℕ := 2 ^ (n.log2 - 52)

/-- The nearest double, with ties to the even significand. -/
def round (n : ℕ) : ℕ :=
  let significand := n / ulp n
  let rest := n % ulp n
  if ulp n < 2 * rest ∨ (ulp n = 2 * rest ∧ significand % 2 = 1) then (significand + 1) * ulp n
  else significand * ulp n

theorem ulp_eq_one {n : ℕ} (h : n < 2 ^ 53) : ulp n = 1 := by
  have hlog : n.log2 ≤ 52 := by
    by_cases hzero : n = 0
    · simp [hzero]
    · have hlt := (Nat.log2_lt hzero).mpr h
      omega
  have hsub : n.log2 - 52 = 0 := by omega
  rw [ulp, hsub, pow_zero]

@[simp] theorem round_of_lt {n : ℕ} (h : n < 2 ^ 53) : round n = n := by
  simp [round, ulp_eq_one h, Nat.mod_one]

/-- Rounding down to a multiple of the distance stays in the same binade. -/
theorem le_round {n : ℕ} (h : 2 ^ 53 ≤ n) : 2 ^ 53 ≤ round n := by
  have hpos : n ≠ 0 := by
    have := Nat.two_pow_pos 53
    omega
  have hlog : 53 ≤ n.log2 := (Nat.le_log2 hpos).mpr h
  have hsplit : 2 ^ n.log2 = 2 ^ 52 * ulp n := by
    rw [ulp, ← pow_add]
    congr 1
    omega
  have hulp_pos : 0 < ulp n := Nat.two_pow_pos _
  have hsignificand : 2 ^ 52 ≤ n / ulp n := by
    apply (Nat.le_div_iff_mul_le hulp_pos).mpr
    rw [← hsplit]
    exact Nat.log2_self_le hpos
  have hulp : 2 ≤ ulp n := by
    calc 2 = 2 ^ 1 := (pow_one 2).symm
      _ ≤ ulp n := Nat.pow_le_pow_right (by omega) (by omega)
  have hdown : 2 ^ 52 * 2 ≤ n / ulp n * ulp n := Nat.mul_le_mul hsignificand hulp
  have hup : n / ulp n * ulp n ≤ (n / ulp n + 1) * ulp n :=
    Nat.mul_le_mul_right _ (Nat.le_succ _)
  unfold round
  simp only
  split
  · omega
  · omega

end Double
