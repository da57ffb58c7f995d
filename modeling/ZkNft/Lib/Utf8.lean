import ZkNft.Lib.Bytes

/-! Strings as their bytes, and what a zero byte is in them. -/

namespace Utf8

/-- `String::from_utf8(bytes).ok()`. -/
def fromBytes (bs : List UInt8) : Option String := String.fromUTF8? bs.toByteArray

/-- `as_bytes`. -/
def asBytes (s : String) : List UInt8 := s.toByteArray.data.toList

/-- The bytes are the text of some characters. -/
def Valid (bs : List UInt8) : Prop := bs.toByteArray.IsValidUTF8

instance (bs : List UInt8) : Decidable (Valid bs) :=
  inferInstanceAs (Decidable bs.toByteArray.IsValidUTF8)

theorem toByteArray_asBytes (s : String) : (asBytes s).toByteArray = s.toByteArray := by
  apply ByteArray.ext
  rw [asBytes, List.data_toByteArray]

theorem fromBytes_eq_some {bs : List UInt8} {s : String} :
    fromBytes bs = some s ↔ asBytes s = bs := by
  rw [← List.toByteArray_inj, toByteArray_asBytes, fromBytes, String.fromUTF8?]
  by_cases h : bs.toByteArray.IsValidUTF8
  · rw [dif_pos h, Option.some.injEq, ← String.toByteArray_inj]
    exact eq_comm
  · rw [dif_neg h]
    constructor
    · intro hnone
      cases hnone
    · intro heq
      exact absurd (heq ▸ s.isValidUTF8) h

theorem exists_fromBytes {bs : List UInt8} : (∃ s, fromBytes bs = some s) ↔ Valid bs := by
  unfold fromBytes String.fromUTF8? Valid
  split
  next h => exact iff_of_true ⟨_, rfl⟩ h
  next h => simpa using h

theorem valid_iff {bs : List UInt8} :
    Valid bs ↔ ∃ cs : List Char, bs = cs.flatMap String.utf8EncodeChar := by
  constructor
  · intro h
    obtain ⟨cs, hcs⟩ := h
    exact ⟨cs, List.toByteArray_inj.mp hcs⟩
  · intro h
    obtain ⟨cs, rfl⟩ := h
    exact ⟨cs, rfl⟩

theorem continuation_ne_zero (n : ℕ) : UInt8.ofNat (n % 64 + 128) ≠ 0 := by
  intro h
  have htoNat := congrArg UInt8.toNat h
  rw [UInt8.toNat_ofNat'] at htoNat
  have hzero : (n % 64 + 128) % 2 ^ 8 = 0 := htoNat
  omega

/-- The bytes behind the first one of a character have their highest bit set. -/
theorem eq_nil_of_encode {c : Char} {front : List UInt8}
    (h : String.utf8EncodeChar c = front ++ [0]) : front = [] := by
  have hlast := congrArg List.getLast? h
  rw [List.getLast?_concat] at hlast
  have hlength := congrArg List.length h
  unfold String.utf8EncodeChar at hlast hlength
  simp only at hlast hlength
  split_ifs at hlast hlength
  · rw [List.length_append] at hlength
    exact List.length_eq_zero_iff.mp (Nat.succ.inj hlength).symm
  all_goals exact absurd (Option.some.inj hlast) (continuation_ne_zero _)

/-- A zero byte is a character of its own. -/
theorem valid_append_zero (bs : List UInt8) : Valid (bs ++ [0]) ↔ Valid bs := by
  rw [valid_iff, valid_iff]
  constructor
  · intro h
    obtain ⟨cs, hcs⟩ := h
    cases List.eq_nil_or_concat cs with
    | inl hnil => simp [hnil] at hcs
    | inr hconcat =>
      obtain ⟨cs, c, rfl⟩ := hconcat
      rw [List.concat_eq_append, List.flatMap_append, List.flatMap_singleton] at hcs
      have hne : String.utf8EncodeChar c ≠ [] := String.utf8EncodeChar_ne_nil
      obtain ⟨front, b, hc⟩ := (List.eq_nil_or_concat _).resolve_left hne
      rw [List.concat_eq_append] at hc
      rw [hc, ← List.append_assoc] at hcs
      obtain ⟨hbs, hb⟩ := List.append_inj' hcs rfl
      cases hb
      rw [eq_nil_of_encode hc, List.append_nil] at hbs
      exact ⟨cs, hbs⟩
  · intro h
    obtain ⟨cs, rfl⟩ := h
    refine ⟨cs ++ ['\x00'], ?_⟩
    rw [List.flatMap_append]
    rfl

theorem valid_append_zeros (bs : List UInt8) (k : ℕ) :
    Valid (bs ++ List.replicate k 0) ↔ Valid bs := by
  induction k with
  | zero => rw [List.replicate_zero, List.append_nil]
  | succ k ih => rw [List.replicate_succ', ← List.append_assoc, valid_append_zero, ih]

end Utf8
