import Mathlib.Algebra.Order.Ring.Int
import Mathlib.Tactic.Common
import Mathlib.Tactic.Positivity
import Mathlib.Tactic.Ring

/-! Signed fixed point numbers of a given width. Results that do not fit wrap around. -/

/-- A number of `width` bits, `frac` of them behind the point. -/
@[ext] structure Fixed (width frac : ℕ) where
  bits : ℤ
  lower : -2 ^ (width - 1) ≤ bits
  upper : bits < 2 ^ (width - 1)
  deriving DecidableEq

namespace Fixed
variable {width frac : ℕ}

/-- The integer is the bits of a number. -/
def Fits (width : ℕ) (n : ℤ) : Prop := -2 ^ (width - 1) ≤ n ∧ n < 2 ^ (width - 1)

theorem two_pow_half (width : ℕ) : ((2 ^ width : ℕ) : ℤ) / 2 ≤ 2 ^ (width - 1) ∧
    (((2 ^ width : ℕ) : ℤ) + 1) / 2 ≤ 2 ^ (width - 1) := by
  cases width with
  | zero => decide
  | succ n =>
    have hpow : ((2 ^ (n + 1) : ℕ) : ℤ) = 2 * 2 ^ n := by push_cast; ring
    rw [hpow, Nat.add_sub_cancel]
    omega

theorem bmod_fits (n : ℤ) : Fits width (n.bmod (2 ^ width)) := by
  have hpos : 0 < 2 ^ width := Nat.two_pow_pos width
  have hlower := Int.le_bmod (x := n) hpos
  have hupper := Int.bmod_lt (x := n) hpos
  have ⟨hhalf, hhalf'⟩ := two_pow_half width
  exact ⟨by omega, by omega⟩

def wrap (n : ℤ) : Fixed width frac := ⟨n.bmod (2 ^ width), (bmod_fits n).1, (bmod_fits n).2⟩

/-- `from_num` of an integer. -/
def fromNum (n : ℕ) : Fixed width frac := wrap (n * 2 ^ frac)

def add (a b : Fixed width frac) : Fixed width frac := wrap (a.bits + b.bits)

def sub (a b : Fixed width frac) : Fixed width frac := wrap (a.bits - b.bits)

def mul (a b : Fixed width frac) : Fixed width frac := wrap (a.bits * b.bits / 2 ^ frac)

/-- The quotient is cut off; there is none by zero. -/
def div (a b : Fixed width frac) : Option (Fixed width frac) :=
  if b.bits = 0 then none else some (wrap ((a.bits * 2 ^ frac).tdiv b.bits))

def ceil (a : Fixed width frac) : Fixed width frac := wrap (-(-a.bits / 2 ^ frac) * 2 ^ frac)

/-- `to_num` to an unsigned integer of `n` bits. -/
def toNum (n : ℕ) (a : Fixed width frac) : ℕ := (a.bits / 2 ^ frac % 2 ^ n).toNat

theorem Fits.of_le {n : ℤ} {k : ℕ} (h : (k : ℤ) < 2 ^ (width - 1)) (h₀ : 0 ≤ n) (hk : n ≤ k) :
    Fits width n := by
  have hpos : (0 : ℤ) < 2 ^ (width - 1) := by positivity
  exact ⟨by omega, by omega⟩

/-- What fits does not wrap. -/
theorem wrap_bits {n : ℤ} (hwidth : 0 < width) (h : Fits width n) :
    (wrap n : Fixed width frac).bits = n := by
  obtain ⟨w, rfl⟩ : ∃ w, width = w + 1 := ⟨width - 1, by omega⟩
  have hpow : ((2 ^ (w + 1) : ℕ) : ℤ) = 2 * 2 ^ w := by push_cast; ring
  obtain ⟨hlower, hupper⟩ := h
  rw [Nat.add_sub_cancel] at hlower hupper
  apply Int.bmod_eq_of_le
  · rw [hpow]
    omega
  · rw [hpow]
    omega

section Exact
variable {a b : Fixed width frac} (hwidth : 0 < width)
include hwidth

theorem fromNum_bits {n : ℕ} (h : (n : ℤ) * 2 ^ frac < 2 ^ (width - 1)) :
    (fromNum n : Fixed width frac).bits = n * 2 ^ frac := by
  apply wrap_bits hwidth
  have hpos : (0 : ℤ) < 2 ^ (width - 1) := by positivity
  have hn : (0 : ℤ) ≤ n * 2 ^ frac := by positivity
  exact ⟨by omega, h⟩

/-- The quotient of a smaller number by a greater one is at most one. -/
theorem div_of_le (hone : (2 : ℤ) ^ frac < 2 ^ (width - 1)) (ha : 0 ≤ a.bits) (hb : 0 < b.bits)
    (h : a.bits ≤ b.bits) : ∃ c, div a b = some c ∧ c.bits = a.bits * 2 ^ frac / b.bits ∧
      0 ≤ c.bits ∧ c.bits ≤ 2 ^ frac := by
  have hpos : (0 : ℤ) < 2 ^ frac := by positivity
  have hnonneg : 0 ≤ a.bits * 2 ^ frac / b.bits :=
    Int.ediv_nonneg (Int.mul_nonneg ha hpos.le) hb.le
  have hle : a.bits * 2 ^ frac / b.bits ≤ 2 ^ frac := by
    apply Int.ediv_le_of_le_mul hb
    rw [mul_comm]
    exact Int.mul_le_mul_of_nonneg_left h hpos.le
  have hbits : (wrap (a.bits * 2 ^ frac / b.bits) : Fixed width frac).bits =
      a.bits * 2 ^ frac / b.bits := by
    apply wrap_bits hwidth
    exact Fits.of_le (k := 2 ^ frac) (by exact_mod_cast hone) hnonneg (by exact_mod_cast hle)
  refine ⟨wrap (a.bits * 2 ^ frac / b.bits), ?_, hbits, by omega, by omega⟩
  rw [div, if_neg hb.ne', Int.tdiv_eq_ediv_of_nonneg (Int.mul_nonneg ha hpos.le)]

/-- The least integer that is not below a number. -/
theorem ceil_toNum {k n : ℕ} (h₀ : 0 ≤ a.bits) (hk : a.bits ≤ k * 2 ^ frac)
    (hfits : (k : ℤ) * 2 ^ frac < 2 ^ (width - 1)) (hn : k < 2 ^ n) :
    (a.ceil.toNum n : ℤ) = -(-a.bits / 2 ^ frac) := by
  have hpos : (0 : ℤ) < 2 ^ frac := by positivity
  have hnonneg : 0 ≤ -(-a.bits / 2 ^ frac) := by
    have hle : -a.bits / 2 ^ frac ≤ 0 := Int.ediv_le_of_le_mul hpos (by omega)
    omega
  have hle : -(-a.bits / 2 ^ frac) ≤ k := by
    have hge : -(k : ℤ) ≤ -a.bits / 2 ^ frac := by
      apply Int.le_ediv_of_mul_le hpos
      rw [Int.neg_mul]
      omega
    omega
  have hbits : a.ceil.bits = -(-a.bits / 2 ^ frac) * 2 ^ frac := by
    apply wrap_bits hwidth
    apply Fits.of_le (k := k * 2 ^ frac) (by exact_mod_cast hfits)
    · exact Int.mul_nonneg hnonneg hpos.le
    · push_cast
      exact Int.mul_le_mul_of_nonneg_right hle hpos.le
  have hlt : (k : ℤ) < 2 ^ n := by exact_mod_cast hn
  rw [toNum, hbits, Int.mul_ediv_cancel _ hpos.ne', Int.emod_eq_of_lt hnonneg (by omega)]
  exact Int.toNat_of_nonneg hnonneg

end Exact

end Fixed
