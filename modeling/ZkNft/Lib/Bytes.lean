import Mathlib.Tactic.Common
import Mathlib.Algebra.GroupWithZero.Nat

/-! Fixed-length byte arrays and little-endian integers. -/

/-- The array type `[u8; n]`. -/
structure Bytes (n : ℕ) where
  toList : List UInt8
  length_eq : toList.length = n
  deriving DecidableEq

namespace Bytes

variable {n : ℕ}

@[ext] theorem ext {a b : Bytes n} (h : a.toList = b.toList) : a = b := by
  cases a
  cases b
  simp_all

/-- `Vec<u8>::try_into::<[u8; n]>`. -/
def ofList? (n : ℕ) (l : List UInt8) : Option (Bytes n) :=
  if h : l.length = n then some ⟨l, h⟩ else none

def zero (n : ℕ) : Bytes n := ⟨List.replicate n 0, by simp⟩

theorem ofList?_eq_some {l : List UInt8} {b : Bytes n} :
    ofList? n l = some b ↔ b.toList = l := by
  unfold ofList?
  split
  next h => simp [Bytes.ext_iff, eq_comm]
  next h => simpa using fun hb : b.toList = l => h (hb ▸ b.length_eq)

@[simp] theorem ofList?_toList (b : Bytes n) : ofList? n b.toList = some b :=
  ofList?_eq_some.mpr rfl

/-- The `w` little-endian bytes of `v`, the bits above them dropped. -/
def toLE : ℕ → ℕ → List UInt8
  | 0, _ => []
  | w + 1, v => UInt8.ofNat v :: toLE w (v / 256)

def ofLE : List UInt8 → ℕ
  | [] => 0
  | b :: bs => b.toNat + 256 * ofLE bs

@[simp] theorem toLE_length (w v : ℕ) : (toLE w v).length = w := by
  induction w generalizing v with
  | zero => rfl
  | succ w ih => simp [toLE, ih]

theorem ofLE_toLE (w v : ℕ) : ofLE (toLE w v) = v % 256 ^ w := by
  induction w generalizing v with
  | zero => simp [toLE, ofLE, Nat.mod_one]
  | succ w ih => simp [toLE, ofLE, ih, Nat.pow_succ', Nat.mod_mul]

theorem ofLE_toLE_of_lt {w v : ℕ} (h : v < 2 ^ (8 * w)) : ofLE (toLE w v) = v := by
  rw [ofLE_toLE]
  exact Nat.mod_eq_of_lt (by simpa [Nat.pow_mul] using h)

/-- The components of a flat array, and back. -/
def split (m : ℕ) {k : ℕ} (b : Bytes (m + k)) : Bytes m × Bytes k :=
  (⟨b.toList.take m, by simp [b.length_eq]⟩, ⟨b.toList.drop m, by simp [b.length_eq]⟩)

def append {m k : ℕ} (a : Bytes m) (b : Bytes k) : Bytes (m + k) :=
  ⟨a.toList ++ b.toList, by simp [a.length_eq, b.length_eq]⟩

theorem toLE_ofLE (l : List UInt8) : toLE l.length (ofLE l) = l := by
  induction l with
  | nil => rfl
  | cons b l ih =>
    have hb := b.toNat_lt
    have hdiv : (b.toNat + 256 * ofLE l) / 256 = ofLE l := by omega
    have hmod : UInt8.ofNat (b.toNat + 256 * ofLE l) = b := by
      apply UInt8.toNat_inj.mp
      rw [UInt8.toNat_ofNat']
      omega
    rw [ofLE, List.length_cons, toLE, hdiv, hmod, ih]

theorem ofLE_lt (l : List UInt8) : ofLE l < 256 ^ l.length := by
  induction l with
  | nil => simp [ofLE]
  | cons b l ih =>
    have hb := b.toNat_lt
    rw [ofLE, List.length_cons, Nat.pow_succ]
    omega

theorem ofLE_append_zeros (l : List UInt8) (k : ℕ) :
    ofLE (l ++ List.replicate k 0) = ofLE l := by
  induction l with
  | nil =>
    induction k with
    | zero => rfl
    | succ k ih =>
      have hzero : ofLE (List.replicate k 0) = 0 := ih
      show 0 + 256 * ofLE (List.replicate k 0) = 0
      rw [hzero]
  | cons b l ih => rw [List.cons_append, ofLE, ih, ofLE]

theorem split_eq_iff {m k : ℕ} {c : Bytes (m + k)} {p : Bytes m × Bytes k} :
    split m c = p ↔ p.1.append p.2 = c := by
  obtain ⟨a, b⟩ := p
  constructor
  · rintro ⟨⟩
    apply ext
    exact List.take_append_drop m c.toList
  · rintro rfl
    have hm := a.length_eq
    apply Prod.ext
    · apply ext
      show (a.toList ++ b.toList).take m = a.toList
      exact List.take_left' hm
    · apply ext
      show (a.toList ++ b.toList).drop m = b.toList
      exact List.drop_left' hm

end Bytes
