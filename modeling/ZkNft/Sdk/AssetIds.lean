import ZkNft.Lib.Double
import ZkNft.Lib.Hex
import ZkNft.MantaPay.TransferLedger

/-! Asset ids as field elements, in the SDK and in the pallet. -/

namespace ZkNft
namespace Sdk

/-- `uint8ArrayToNumber`, a loop from the last byte to the first. -/
def uint8ArrayToNumber (uint8array : List UInt8) : ℕ :=
  uint8array.foldr (fun b value => Double.round (Double.round (value * 256) + b.toNat)) 0

/-- The loop of `numberToUint8Array`: two digits from `j` on for each byte, where `NaN` becomes
zero. -/
def fill (hex : List Char) : ℕ → ℕ → List UInt8
  | 0, _ => []
  | len + 1, j =>
      UInt8.ofNat ((Hex.parseInt ((hex.drop j).take 2)).getD 0) :: fill hex len (j + 2)

theorem fill_length (hex : List Char) (len j : ℕ) : (fill hex len j).length = len := by
  induction len generalizing j with
  | zero => rfl
  | succ len ih => rw [fill, List.length_cons, ih]

def numberToUint8Array (assetIdNumber : ℕ) : Bytes 32 :=
  let bn := Nat.toDigits 10 assetIdNumber
  let hex := Hex.padded (Nat.ofDigitChars 10 bn 0)
  ⟨fill hex 32 0, fill_length hex 32 0⟩

end Sdk

/-- `field_from_id`. -/
def fieldFromId (id : StandardAssetId) : Bytes 32 :=
  (⟨Bytes.toLE 16 id.toNat, Bytes.toLE_length _ _⟩ : Bytes 16).append (Bytes.zero 16)

section Pallet

theorem idFromField_fieldFromId (id : StandardAssetId) :
    idFromField (fieldFromId id) = some id := by
  have hlen := Bytes.toLE_length 16 id.toNat
  have hdrop : (fieldFromId id).toList.drop 16 = List.replicate 16 0 := List.drop_left' hlen
  have htake : (fieldFromId id).toList.take 16 = Bytes.toLE 16 id.toNat := List.take_left' hlen
  rw [idFromField, if_pos hdrop, htake, Bytes.ofLE_toLE_of_lt id.isLt]
  simp

theorem idFromField_eq_some {field : Bytes 32} {id : StandardAssetId} :
    idFromField field = some id ↔ field = fieldFromId id := by
  constructor
  · intro h
    unfold idFromField at h
    split at h
    next hzero =>
      have hid := Option.some.inj h
      have hlen : (field.toList.take 16).length = 16 := by
        rw [List.length_take, field.length_eq]
        rfl
      have hlt := Bytes.ofLE_lt (field.toList.take 16)
      rw [hlen] at hlt
      have hbound : Bytes.ofLE (field.toList.take 16) < 2 ^ 128 := lt_of_lt_of_le hlt (by norm_num)
      have hlow : Bytes.toLE 16 id.toNat = field.toList.take 16 := by
        rw [← hid, BitVec.toNat_ofNat, Nat.mod_eq_of_lt hbound]
        have hround := Bytes.toLE_ofLE (field.toList.take 16)
        rwa [hlen] at hround
      apply Bytes.ext
      calc field.toList = field.toList.take 16 ++ field.toList.drop 16 :=
            (List.take_append_drop 16 _).symm
        _ = Bytes.toLE 16 id.toNat ++ List.replicate 16 0 := by rw [hlow, hzero]
    next => cases h
  · intro h
    rw [h]
    exact idFromField_fieldFromId id

/-- A field element is that of the id it denotes. -/
theorem eq_fieldFromId_iff {field : Bytes 32} {n : ℕ} (h : n < 2 ^ 128) :
    field = fieldFromId (BitVec.ofNat 128 n) ↔ Bytes.ofLE field.toList = n := by
  have hvalue : Bytes.ofLE (fieldFromId (BitVec.ofNat 128 n)).toList = n := by
    have htoNat : (BitVec.ofNat 128 n).toNat = n := by
      rw [BitVec.toNat_ofNat, Nat.mod_eq_of_lt h]
    show Bytes.ofLE (Bytes.toLE 16 (BitVec.ofNat 128 n).toNat ++ List.replicate 16 0) = n
    rw [htoNat, Bytes.ofLE_append_zeros, Bytes.ofLE_toLE_of_lt h]
  constructor
  · intro heq
    rw [heq, hvalue]
  · intro heq
    apply Bytes.ext
    have hround := Bytes.toLE_ofLE field.toList
    have hround' := Bytes.toLE_ofLE (fieldFromId (BitVec.ofNat 128 n)).toList
    rw [Bytes.length_eq, heq] at hround
    rw [Bytes.length_eq, hvalue] at hround'
    rw [← hround, hround']

end Pallet

namespace Sdk

section Reader

/-- The reader is exact on what a double holds, and never comes back below that. -/
theorem uint8ArrayToNumber_spec (l : List UInt8) :
    (Bytes.ofLE l < 2 ^ 53 → uint8ArrayToNumber l = Bytes.ofLE l) ∧
      (2 ^ 53 ≤ Bytes.ofLE l → 2 ^ 53 ≤ uint8ArrayToNumber l) := by
  induction l with
  | nil => exact ⟨fun _ => rfl, fun h => h⟩
  | cons b l ih =>
    have hstep : uint8ArrayToNumber (b :: l) =
        Double.round (Double.round (uint8ArrayToNumber l * 256) + b.toNat) := rfl
    rw [hstep, Bytes.ofLE]
    constructor
    · intro h
      have hlt : Bytes.ofLE l < 2 ^ 53 := by omega
      have hproduct : Double.round (Bytes.ofLE l * 256) = Bytes.ofLE l * 256 :=
        Double.round_of_lt (by omega)
      rw [ih.1 hlt, hproduct, Double.round_of_lt (by omega)]
      omega
    · intro h
      apply Double.le_round
      by_cases hlarge : 2 ^ 53 ≤ Bytes.ofLE l
      · have hvalue := ih.2 hlarge
        have hround : 2 ^ 53 ≤ Double.round (uint8ArrayToNumber l * 256) :=
          Double.le_round (by omega)
        omega
      · rw [ih.1 (by omega)]
        by_cases hproduct : 2 ^ 53 ≤ Bytes.ofLE l * 256
        · have hround := Double.le_round hproduct
          omega
        · rw [Double.round_of_lt (by omega)]
          omega

theorem uint8ArrayToNumber_eq_iff {l : List UInt8} {n : ℕ} (h : n < 2 ^ 53) :
    uint8ArrayToNumber l = n ↔ Bytes.ofLE l = n := by
  have hspec := uint8ArrayToNumber_spec l
  by_cases hlt : Bytes.ofLE l < 2 ^ 53
  · rw [hspec.1 hlt]
  · have hlarge := hspec.2 (not_lt.mp hlt)
    constructor
    · intro heq
      omega
    · intro heq
      omega

end Reader

section Writer

theorem fill_drop (hex : List Char) (len i j : ℕ) :
    fill hex len (i + j) = fill (hex.drop i) len j := by
  induction len generalizing j with
  | zero => rfl
  | succ len ih =>
    have hrest := ih (j + 2)
    rw [← Nat.add_assoc] at hrest
    rw [fill, fill, hrest, List.drop_drop]

theorem fill_nil (len j : ℕ) : fill [] len j = List.replicate len 0 := by
  induction len generalizing j with
  | zero => rfl
  | succ len ih =>
    rw [fill, ih, List.drop_nil, List.take_nil, List.replicate_succ]
    rfl

/-- The bytes of the text from the front, then zeros. -/
theorem fill_ofBytes (bs : List UInt8) (len : ℕ) (h : bs.length ≤ len) :
    fill (Hex.ofBytes bs) len 0 = bs ++ List.replicate (len - bs.length) 0 := by
  induction bs generalizing len with
  | nil => exact fill_nil len 0
  | cons b bs ih =>
    cases len with
    | zero => cases h
    | succ len =>
      have hrest := ih len (by simpa using h)
      have htail : fill (Hex.ofBytes (b :: bs)) len (0 + 2) = fill (Hex.ofBytes bs) len 0 :=
        fill_drop _ len 2 0
      have hhead : ((Hex.ofBytes (b :: bs)).drop 0).take 2 = Hex.ofByte b := rfl
      rw [fill, hhead, htail, hrest, Hex.parseInt_ofByte, Option.getD_some, UInt8.ofNat_toNat,
        List.length_cons, Nat.add_sub_add_right, List.cons_append]

theorem ofLE_map (ds : List ℕ) (h : ∀ d ∈ ds, d < 256) :
    Bytes.ofLE (ds.map UInt8.ofNat) = Nat.ofDigits 256 ds := by
  induction ds with
  | nil => rfl
  | cons d ds ih =>
    have hd : d < 256 := h d (List.mem_cons_self ..)
    have hrest := ih fun e he => h e (List.mem_cons_of_mem d he)
    rw [List.map_cons, Bytes.ofLE, hrest, UInt8.toNat_ofNat', Nat.mod_eq_of_lt hd,
      Nat.ofDigits_cons]

/-- The writer puts the most significant byte first. -/
theorem ofLE_numberToUint8Array {n : ℕ} (h : n < 2 ^ 53) :
    Bytes.ofLE (numberToUint8Array n).toList = Nat.ofDigits 256 (Hex.bigEndian n) := by
  have hlen : ((Hex.bigEndian n).map UInt8.ofNat).length ≤ 32 := by
    have hlarge : n < 256 ^ 32 := lt_of_lt_of_le h (by decide)
    rw [List.length_map]
    exact Hex.bigEndian_length_le (by omega) hlarge
  have hlist : (numberToUint8Array n).toList = fill (Hex.padded n) 32 0 := by
    simp [numberToUint8Array, Nat.ofDigitChars_ten_toDigits]
  rw [hlist, Hex.padded_eq, fill_ofBytes _ _ hlen, Bytes.ofLE_append_zeros]
  exact ofLE_map _ fun d hd => Hex.lt_of_mem_bigEndian hd

/-- Reversed digits denote the same number exactly if they are the same digits. -/
theorem ofDigits_bigEndian_eq_iff (n : ℕ) :
    Nat.ofDigits 256 (Hex.bigEndian n) = n ↔
      (Nat.digits 256 n).reverse = Nat.digits 256 n := by
  unfold Hex.bigEndian
  split
  next hzero =>
    rw [hzero]
    simp
  next hpos =>
    constructor
    · intro h
      apply Nat.ofDigits_inj_of_len_eq (b := 256) (by omega) List.length_reverse
      · intro d hd
        exact Nat.digits_lt_base (by omega) (List.mem_reverse.mp hd)
      · intro d hd
        exact Nat.digits_lt_base (by omega) hd
      · rw [h, Nat.ofDigits_digits]
    · intro h
      rw [h, Nat.ofDigits_digits]

end Writer

/-- The SDK's writer puts the most significant byte first, while its reader and the pallet take
the least significant byte first. -/
theorem assetId_codec {n : ℕ} (h : n < 2 ^ 53) :
    ((uint8ArrayToNumber (numberToUint8Array n).toList = n ∧
        numberToUint8Array n = fieldFromId (BitVec.ofNat 128 n) ∧
        idFromField (numberToUint8Array n) = some (BitVec.ofNat 128 n)) ↔
      (Nat.digits 256 n).reverse = Nat.digits 256 n) ∧
    (∀ id, idFromField (fieldFromId id) = some id) ∧
    ∀ field : Bytes 32, field.toList.drop 16 ≠ List.replicate 16 0 → idFromField field = none := by
  refine ⟨?_, idFromField_fieldFromId, ?_⟩
  · have hid : n < 2 ^ 128 := lt_trans h (by norm_num)
    rw [uint8ArrayToNumber_eq_iff h, idFromField_eq_some, eq_fieldFromId_iff hid,
      ofLE_numberToUint8Array h, ofDigits_bigEndian_eq_iff]
    simp
  · intro field hne
    exact if_neg hne

/-- An id of three equal bytes. -/
theorem assetId_codec_palindrome :
    uint8ArrayToNumber (numberToUint8Array 65793).toList = 65793 ∧
      numberToUint8Array 65793 = fieldFromId (BitVec.ofNat 128 65793) ∧
      idFromField (numberToUint8Array 65793) = some (BitVec.ofNat 128 65793) :=
  (assetId_codec (by norm_num)).1.mpr (by simp)

/-- The smallest id of two bytes is written, and read again, as the id one. -/
theorem assetId_swapped : uint8ArrayToNumber (numberToUint8Array 256).toList = 1 ∧
    numberToUint8Array 256 ≠ fieldFromId (BitVec.ofNat 128 256) ∧
    idFromField (numberToUint8Array 256) = some (BitVec.ofNat 128 1) := by
  have hone : Bytes.ofLE (numberToUint8Array 256).toList = 1 := by
    rw [ofLE_numberToUint8Array (by norm_num)]
    simp [Hex.bigEndian, Nat.ofDigits_cons]
  refine ⟨(uint8ArrayToNumber_eq_iff (by norm_num)).mpr hone, ?_, ?_⟩
  · intro h
    rw [eq_fieldFromId_iff (by norm_num), hone] at h
    omega
  · rw [idFromField_eq_some, eq_fieldFromId_iff (by norm_num)]
    exact hone

end Sdk
end ZkNft
