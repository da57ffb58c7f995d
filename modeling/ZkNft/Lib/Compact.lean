import ZkNft.Lib.Bytes
import Mathlib.Tactic.NormNum

/-! The compact integers of SCALE, which take as many bytes as they need. -/

namespace Compact

/-- The two lowest bits of the first byte are the mode. -/
def encode (n : ℕ) : List UInt8 :=
  if n < 2 ^ 6 then Bytes.toLE 1 (4 * n)
  else if n < 2 ^ 14 then Bytes.toLE 2 (4 * n + 1)
  else if n < 2 ^ 30 then Bytes.toLE 4 (4 * n + 2)
  else
    let width := n.log2 / 8 + 1
    UInt8.ofNat (4 * (width - 4) + 3) :: Bytes.toLE width n

theorem length_pos (n : ℕ) : 0 < (encode n).length := by
  unfold encode
  split_ifs <;> simp

/-- The second mode is the one of two bytes. -/
theorem length_eq_two_iff (n : ℕ) : (encode n).length = 2 ↔ 2 ^ 6 ≤ n ∧ n < 2 ^ 14 := by
  unfold encode
  split_ifs with hsmall hmedium hlarge
  · rw [Bytes.toLE_length]
    omega
  · rw [Bytes.toLE_length]
    omega
  · rw [Bytes.toLE_length]
    omega
  · have hpos : n ≠ 0 := by omega
    have hlog : 30 ≤ n.log2 := (Nat.le_log2 hpos).mpr (not_lt.mp hlarge)
    simp only [List.length_cons, Bytes.toLE_length]
    omega

end Compact
