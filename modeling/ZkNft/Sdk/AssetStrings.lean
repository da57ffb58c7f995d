import ZkNft.Lib.Utf8
import ZkNft.MantaPay.PostCodec
import ZkNft.Sdk.AssetIds

/-! Asset ids as strings in the wallet crate. -/

namespace ZkNft
namespace Sdk

/-- Convert AssetId to String for js compatability (AssetID is 128 bit). -/
def idStringFromField (id : Bytes 32) : Option String :=
  if Bytes.ofLE ((id.toList.drop 16).take 16) = 0 then Utf8.fromBytes id.toList else none

/-- Convert String to AssetId (Field). A string of another length than 32 traps. -/
def fieldFromIdString (id : String) : Exec Empty (Bytes 32) :=
  match Bytes.ofList? 32 (Utf8.asBytes id) with
  | some field => .ok field
  | none => .trap .index

/-- Convert u128 to AssetId (Field). -/
def fieldFromIdU128 (id : BitVec 128) : Bytes 32 :=
  (⟨Bytes.toLE 16 id.toNat, Bytes.toLE_length _ _⟩ : Bytes 16).append (Bytes.zero 16)

/-- What `TransferPost::new` makes of its `asset_id`. -/
def newAssetId {F : Fields} (assetId : Option String) : Exec Empty (Option F.Fp) :=
  match assetId with
  | none => .ok none
  | some id => do
      let x ← fieldFromIdString id
      let assetId ← Exec.expect
        "Decoding a field element from [u8; 32] is not allowed to fail" (F.fp.tryFrom x.toList)
      return some assetId

theorem fieldFromIdU128_toList (id : BitVec 128) :
    (fieldFromIdU128 id).toList = Bytes.toLE 16 id.toNat ++ List.replicate 16 0 := rfl

theorem fieldFromIdU128_injective : Function.Injective fieldFromIdU128 := by
  intro id id' h
  have hid := idFromField_fieldFromId id
  have hid' := idFromField_fieldFromId id'
  have hsame : fieldFromId id = fieldFromId id' := h
  rw [hsame, hid'] at hid
  exact (Option.some.inj hid).symm

/-- The upper half of an id's field element is zero, so that it is left to the text. -/
theorem idStringFromField_eq_some {id : BitVec 128} {s : String} :
    idStringFromField (fieldFromIdU128 id) = some s ↔
      Utf8.asBytes s = (fieldFromIdU128 id).toList := by
  have hupper : ((fieldFromIdU128 id).toList.drop 16).take 16 = List.replicate 16 0 := by
    rw [fieldFromIdU128_toList, List.drop_left' (Bytes.toLE_length 16 _)]
    rfl
  have hzero : Bytes.ofLE (List.replicate 16 0) = 0 := Bytes.ofLE_append_zeros [] 16
  rw [idStringFromField, hupper, if_pos hzero, Utf8.fromBytes_eq_some]

theorem fieldFromIdString_of_asBytes {s : String} {field : Bytes 32}
    (h : Utf8.asBytes s = field.toList) : fieldFromIdString s = .ok field := by
  rw [fieldFromIdString, h, Bytes.ofList?_toList]

/-- An id has a string, from which it comes back and which no other id has, if and only if its
little-endian bytes are text. -/
theorem idString_iff (id : BitVec 128) :
    (∃ s, idStringFromField (fieldFromIdU128 id) = some s ∧
      fieldFromIdString s = .ok (fieldFromIdU128 id) ∧
      (∀ id', idStringFromField (fieldFromIdU128 id') = some s → id' = id) ∧
      ∀ (F : Fields) (x : F.Fp), F.fp.tryFrom (fieldFromIdU128 id).toList = some x →
        newAssetId (some s) = .ok (some x)) ↔
    Utf8.Valid (Bytes.toLE 16 id.toNat) := by
  rw [← Utf8.valid_append_zeros _ 16, ← fieldFromIdU128_toList, ← Utf8.exists_fromBytes]
  constructor
  · intro h
    obtain ⟨s, hs, -⟩ := h
    exact ⟨s, Utf8.fromBytes_eq_some.mpr (idStringFromField_eq_some.mp hs)⟩
  · intro h
    obtain ⟨s, hs⟩ := h
    have hbytes := Utf8.fromBytes_eq_some.mp hs
    have hfield := fieldFromIdString_of_asBytes hbytes
    refine ⟨s, idStringFromField_eq_some.mpr hbytes, hfield, ?_, ?_⟩
    · intro id' hid'
      have hbytes' := idStringFromField_eq_some.mp hid'
      exact fieldFromIdU128_injective (Bytes.ext (hbytes'.symm.trans hbytes))
    · intro F x hx
      simp [newAssetId, hfield, hx, Exec.expect]

/-- The byte 128 starts no character. -/
theorem idString_none : idStringFromField (fieldFromIdU128 128) = none := by
  cases h : idStringFromField (fieldFromIdU128 128) with
  | none => rfl
  | some s =>
    have hbytes := idStringFromField_eq_some.mp h
    have hvalid := Utf8.exists_fromBytes.mp ⟨s, Utf8.fromBytes_eq_some.mpr hbytes⟩
    have hzeros : (fieldFromIdU128 128).toList = [128] ++ List.replicate 31 0 := rfl
    rw [hzeros, Utf8.valid_append_zeros] at hvalid
    exact absurd hvalid (by decide)

end Sdk
end ZkNft
