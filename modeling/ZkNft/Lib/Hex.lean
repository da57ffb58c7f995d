import Mathlib.Data.Nat.Digits.Lemmas
import ZkNft.Lib.Bytes

/-! Hexadecimal text of bytes, and the digits of a number in base 256. -/

namespace Hex

/-- The two digits of a byte. -/
def ofByte (b : UInt8) : List Char := [(b.toNat / 16).digitChar, (b.toNat % 16).digitChar]

def ofBytes (bs : List UInt8) : List Char := bs.flatMap ofByte

@[simp] theorem ofBytes_nil : ofBytes [] = [] := rfl

@[simp] theorem ofBytes_cons (b : UInt8) (bs : List UInt8) :
    ofBytes (b :: bs) = ofByte b ++ ofBytes bs := rfl

@[simp] theorem ofBytes_append (bs cs : List UInt8) :
    ofBytes (bs ++ cs) = ofBytes bs ++ ofBytes cs := List.flatMap_append

@[simp] theorem ofBytes_length (bs : List UInt8) : (ofBytes bs).length = 2 * bs.length := by
  induction bs with
  | nil => rfl
  | cons b bs ih =>
    rw [ofBytes_cons, List.length_append, ih, List.length_cons]
    simp [ofByte]
    omega

theorem ofBytes_drop (bs : List UInt8) (k : ℕ) :
    (ofBytes bs).drop (2 * k) = ofBytes (bs.drop k) := by
  induction k generalizing bs with
  | zero => rfl
  | succ k ih =>
    cases bs with
    | nil => rfl
    | cons b bs => exact ih bs

/-- The text of the first bytes is dropped with them. -/
theorem ofBytes_append_drop {bs : List UInt8} {k : ℕ} (h : k ≤ bs.length) (rest : List Char) :
    (ofBytes bs ++ rest).drop (2 * k) = ofBytes (bs.drop k) ++ rest := by
  have hlength : 2 * k ≤ (ofBytes bs).length := by
    rw [ofBytes_length]
    omega
  rw [List.drop_append_of_le_length hlength, ofBytes_drop]

theorem mem_ofBytes {c : Char} {bs : List UInt8} (h : c ∈ ofBytes bs) :
    ∃ d < 16, c = d.digitChar := by
  obtain ⟨b, -, hc⟩ := List.mem_flatMap.mp h
  have hlt := b.toNat_lt
  simp only [ofByte, List.mem_cons, List.not_mem_nil, or_false] at hc
  cases hc with
  | inl hhigh => exact ⟨_, by omega, hhigh⟩
  | inr hlow => exact ⟨_, by omega, hlow⟩

/-- A character that is no digit is not in the text. -/
theorem not_mem_ofBytes {c : Char} (h : ∀ d < 16, c ≠ d.digitChar) (bs : List UInt8) :
    c ∉ ofBytes bs := by
  intro hc
  obtain ⟨d, hd, heq⟩ := mem_ofBytes hc
  exact h d hd heq

def digit? (c : Char) : Option ℕ :=
  if '0' ≤ c ∧ c ≤ '9' then some (c.toNat - 48)
  else if 'a' ≤ c ∧ c ≤ 'f' then some (c.toNat - 87)
  else if 'A' ≤ c ∧ c ≤ 'F' then some (c.toNat - 55)
  else none

/-- The value of the longest text of digits at the front, `none` if there is no digit. -/
def parseInt (cs : List Char) : Option ℕ :=
  match (cs.map digit?).takeWhile (·.isSome) with
  | [] => none
  | digits => some (digits.foldl (fun v d => 16 * v + d.getD 0) 0)

theorem digit?_digitChar {d : ℕ} (h : d < 16) : digit? d.digitChar = some d := by
  interval_cases d <;> rfl

theorem parseInt_ofByte (b : UInt8) : parseInt (ofByte b) = some b.toNat := by
  have hlt := b.toNat_lt
  have hhigh : digit? (b.toNat / 16).digitChar = some (b.toNat / 16) := digit?_digitChar (by omega)
  have hlow : digit? (b.toNat % 16).digitChar = some (b.toNat % 16) := digit?_digitChar (by omega)
  simp [parseInt, ofByte, hhigh, hlow]
  omega

section Digits

/-- The digits in base 256, the most significant one first, at least one of them. -/
def bigEndian (n : ℕ) : List ℕ := if n = 0 then [0] else (Nat.digits 256 n).reverse

theorem bigEndian_of_lt {n : ℕ} (h : n < 256) : bigEndian n = [n] := by
  unfold bigEndian
  split
  next hzero => rw [hzero]
  next hpos => rw [Nat.digits_of_lt 256 n hpos h, List.reverse_singleton]

theorem bigEndian_of_le {n : ℕ} (h : 256 ≤ n) :
    bigEndian n = bigEndian (n / 256) ++ [n % 256] := by
  have hpos : n ≠ 0 := by omega
  have hdiv : n / 256 ≠ 0 := by omega
  rw [bigEndian, if_neg hpos, bigEndian, if_neg hdiv,
    Nat.digits_eq_cons_digits_div (by omega) hpos, List.reverse_cons]

theorem lt_of_mem_bigEndian {n d : ℕ} (h : d ∈ bigEndian n) : d < 256 := by
  unfold bigEndian at h
  split at h
  · simp_all
  · exact Nat.digits_lt_base (by omega) (List.mem_reverse.mp h)

theorem bigEndian_length_le {n k : ℕ} (hk : 0 < k) (h : n < 256 ^ k) :
    (bigEndian n).length ≤ k := by
  unfold bigEndian
  split
  · exact hk
  · rw [List.length_reverse]
    exact (Nat.digits_length_le_iff (by omega) n).mpr h

/-- The hexadecimal text of a number, of even length. -/
def padded (n : ℕ) : List Char :=
  let hex := Nat.toDigits 16 n
  if hex.length % 2 = 1 then '0' :: hex else hex

theorem toDigits_of_le {n : ℕ} (h : 256 ≤ n) :
    Nat.toDigits 16 n = Nat.toDigits 16 (n / 256) ++ ofByte (UInt8.ofNat n) := by
  have hlow : Nat.toDigits 16 n = Nat.toDigits 16 (n / 16) ++ [(n % 16).digitChar] :=
    Nat.toDigits_of_base_le (by omega) (by omega)
  have hhigh : Nat.toDigits 16 (n / 16) =
      Nat.toDigits 16 (n / 16 / 16) ++ [(n / 16 % 16).digitChar] :=
    Nat.toDigits_of_base_le (by omega) (by omega)
  have hdiv : n / 16 / 16 = n / 256 := Nat.div_div_eq_div_mul n 16 16
  have hmod : (UInt8.ofNat n).toNat / 16 = n / 16 % 16 := by
    rw [UInt8.toNat_ofNat']
    omega
  have hmod' : (UInt8.ofNat n).toNat % 16 = n % 16 := by
    rw [UInt8.toNat_ofNat']
    omega
  rw [hlow, hhigh, hdiv, ofByte, hmod, hmod', List.append_assoc]
  rfl

/-- The text of even length is that of the bytes. -/
theorem padded_eq (n : ℕ) : padded n = ofBytes ((bigEndian n).map UInt8.ofNat) := by
  induction n using Nat.strong_induction_on with
  | _ n ih =>
    by_cases hsmall : n < 256
    · rw [bigEndian_of_lt hsmall, List.map_singleton, ofBytes_cons, ofBytes_nil, List.append_nil,
        ofByte, UInt8.toNat_ofNat', Nat.mod_eq_of_lt hsmall]
      by_cases hdigit : n < 16
      · have hzero : n / 16 = 0 := by omega
        have hmod : n % 16 = n := by omega
        rw [padded, Nat.toDigits_of_lt_base hdigit, hzero, hmod]
        rfl
      · have hhigh : n / 16 < 16 := by omega
        rw [padded, Nat.toDigits_of_base_le (by omega) (by omega),
          Nat.toDigits_of_lt_base hhigh]
        simp
    · have hle : 256 ≤ n := by omega
      have hrec := ih (n / 256) (by omega)
      have hbyte : UInt8.ofNat (n % 256) = UInt8.ofNat n := by
        apply UInt8.toNat_inj.mp
        simp
      rw [bigEndian_of_le hle, List.map_append, ofBytes_append, ← hrec, List.map_singleton, hbyte,
        ofBytes_cons, ofBytes_nil, List.append_nil, padded, padded, toDigits_of_le hle]
      have hlength : (Nat.toDigits 16 (n / 256) ++ ofByte (UInt8.ofNat n)).length % 2 =
          (Nat.toDigits 16 (n / 256)).length % 2 := by
        simp [ofByte]
      simp only [hlength]
      split
      · rfl
      · rfl

end Digits

end Hex
