import ZkNft.Lib.Exec
import ZkNft.MantaPay.Config
import Mathlib.Data.BitVec

/-! The pallet's types of `types.rs` and their conversions from and to the manta-rs types. -/

namespace ZkNft

/-- `scale_codec::Error` built from a text. -/
structure ScaleError where
  desc : String
  deriving DecidableEq, Repr

def FP_ENCODE := "Fp encoding to [u8; 32] failed."
def FP_DECODE := "Vec<u8>(u8; 32) decoding to Fp failed."
def GROUP_ENCODE := "Group encoding to [u8; 32] failed."
def GROUP_DECODE := "Vec<u8>(u8; 32) decoding to Group failed."
def PROOF_DECODE := "Vec<u8>(u8; 128) decoding to Proof failed."

section Encoding
variable {α : Type} (k : Codec α)

def encodeArray (n : ℕ) (msg : String) (x : α) : Except ScaleError (Bytes n) :=
  (Bytes.ofList? n (k.toVec x)).elim (.error ⟨msg⟩) .ok

def decodeVec (msg : String) (bs : List UInt8) : Except ScaleError α :=
  (k.tryFrom bs).elim (.error ⟨msg⟩) .ok

variable {k}

theorem encodeArray_eq_ok {n : ℕ} {msg : String} {x : α} {b : Bytes n} :
    encodeArray k n msg x = .ok b ↔ b.toList = k.toVec x := by
  unfold encodeArray
  rw [← Bytes.ofList?_eq_some]
  cases Bytes.ofList? n (k.toVec x) <;> simp

theorem encodeArray_total {n : ℕ} {msg : String} {x : α} (h : (k.toVec x).length = n) :
    ∃ b, encodeArray k n msg x = .ok b :=
  ⟨⟨k.toVec x, h⟩, encodeArray_eq_ok.mpr rfl⟩

theorem decodeVec_eq_ok {msg : String} {bs : List UInt8} {x : α} :
    decodeVec k msg bs = .ok x ↔ k.tryFrom bs = some x := by
  unfold decodeVec
  cases k.tryFrom bs <;> simp

end Encoding

section Codecs
variable {F : Fields}

/-- Field encode to byte array. -/
def fpEncode (x : F.Fp) : Except ScaleError (Bytes 32) := encodeArray F.fp 32 FP_ENCODE x

def fpDecode (bs : List UInt8) : Except ScaleError F.Fp := decodeVec F.fp FP_DECODE bs

def scalarDecode (bs : List UInt8) : Except ScaleError F.Scalar := decodeVec F.scalar FP_DECODE bs

def groupEncode (x : F.Group) : Except ScaleError (Bytes 32) :=
  encodeArray F.group 32 GROUP_ENCODE x

def groupDecode (bs : List UInt8) : Except ScaleError F.Group := decodeVec F.group GROUP_DECODE bs

def proofDecode (bs : List UInt8) : Except ScaleError F.Proof := decodeVec F.proof PROOF_DECODE bs

end Codecs

def assetValueEncode (v : AssetValue) : Bytes 16 := ⟨Bytes.toLE 16 v.toNat, Bytes.toLE_length _ _⟩

def assetValueDecode (b : Bytes 16) : AssetValue := BitVec.ofNat 128 (Bytes.ofLE b.toList)

@[simp] theorem assetValueDecode_encode (v : AssetValue) :
    assetValueDecode (assetValueEncode v) = v := by
  unfold assetValueDecode assetValueEncode
  rw [Bytes.ofLE_toLE_of_lt v.isLt, BitVec.ofNat_toNat, BitVec.setWidth_eq]

structure Asset where
  id : Bytes 32
  value : Bytes 16
  deriving DecidableEq

structure OutgoingNote where
  ephemeralPublicKey : Bytes 32
  ciphertext : Bytes 32 × Bytes 32
  deriving DecidableEq

structure SenderPost where
  utxoAccumulatorOutput : Bytes 32
  nullifierCommitment : Bytes 32
  outgoingNote : OutgoingNote
  deriving DecidableEq

structure IncomingNote where
  ephemeralPublicKey : Bytes 32
  tag : Bytes 32
  ciphertext : Bytes 32 × Bytes 32 × Bytes 32
  deriving DecidableEq

structure LightIncomingNote where
  ephemeralPublicKey : Bytes 32
  ciphertext : Bytes 32 × Bytes 32 × Bytes 32
  deriving DecidableEq

structure FullIncomingNote where
  addressPartition : UInt8
  incomingNote : IncomingNote
  lightIncomingNote : LightIncomingNote
  deriving DecidableEq

structure Utxo where
  isTransparent : Bool
  publicAsset : Asset
  commitment : Bytes 32
  deriving DecidableEq

structure ReceiverPost where
  utxo : Utxo
  fullIncomingNote : FullIncomingNote
  deriving DecidableEq

structure AuthorizationSignature where
  authorizationKey : Bytes 32
  signature : Bytes 32 × Bytes 32
  deriving DecidableEq

inductive AssetType where
  | ft
  | nft
  | sbt
  | pft
  deriving DecidableEq, Repr

structure TransferPost where
  authorizationSignature : Option AuthorizationSignature
  assetId : Option (Bytes 32)
  sources : List (Bytes 16)
  senderPosts : List SenderPost
  receiverPosts : List ReceiverPost
  sinks : List (Bytes 16)
  proof : Bytes 128
  deriving DecidableEq

structure CurrentPath where
  siblingDigest : Bytes 32
  leafIndex : BitVec 32
  innerPath : List (Bytes 32)
  deriving DecidableEq

structure UtxoMerkleTreePath where
  leafDigest : Option (Bytes 32)
  currentPath : CurrentPath
  deriving DecidableEq

instance : Inhabited UtxoMerkleTreePath := ⟨⟨none, ⟨Bytes.zero 32, 0, []⟩⟩⟩

section Conversions
variable {F : Fields}

def Asset.tryFrom (asset : Config.Asset F) : Except ScaleError Asset := do
  return ⟨← fpEncode asset.id, assetValueEncode asset.value⟩

def Asset.tryInto (asset : Asset) : Except ScaleError (Config.Asset F) := do
  return ⟨← fpDecode asset.id.toList, assetValueDecode asset.value⟩

def OutgoingNote.tryFrom (note : Config.OutgoingNote F) : Except ScaleError OutgoingNote := do
  return ⟨← groupEncode note.ephemeralPublicKey, Bytes.split 32 (k := 32) note.ciphertext⟩

def OutgoingNote.tryInto (note : OutgoingNote) : Except ScaleError (Config.OutgoingNote F) := do
  return ⟨← groupDecode note.ephemeralPublicKey.toList, note.ciphertext.1.append note.ciphertext.2⟩

def SenderPost.tryInto (post : SenderPost) : Except ScaleError (Config.SenderPost F) := do
  return ⟨← fpDecode post.utxoAccumulatorOutput.toList,
    ← fpDecode post.nullifierCommitment.toList, ← post.outgoingNote.tryInto⟩

def IncomingNote.tryFrom (note : Config.IncomingNote F) : Except ScaleError IncomingNote := do
  let ephemeralPublicKey ← groupEncode note.ephemeralPublicKey
  let tag ← fpEncode note.tag
  let ciphertext := (← fpEncode note.message.1, ← fpEncode note.message.2.1,
    ← fpEncode note.message.2.2)
  return ⟨ephemeralPublicKey, tag, ciphertext⟩

def IncomingNote.tryInto (note : IncomingNote) : Except ScaleError (Config.IncomingNote F) := do
  let ephemeralPublicKey ← groupDecode note.ephemeralPublicKey.toList
  let tag ← fpDecode note.tag.toList
  let message := (← fpDecode note.ciphertext.1.toList, ← fpDecode note.ciphertext.2.1.toList,
    ← fpDecode note.ciphertext.2.2.toList)
  return ⟨ephemeralPublicKey, tag, message⟩

def LightIncomingNote.tryFrom (note : Config.LightIncomingNote F) :
    Except ScaleError LightIncomingNote := do
  let flat := Bytes.split 32 (k := 64) note.ciphertext
  return ⟨← groupEncode note.ephemeralPublicKey, flat.1, Bytes.split 32 (k := 32) flat.2⟩

def LightIncomingNote.tryInto (note : LightIncomingNote) :
    Except ScaleError (Config.LightIncomingNote F) := do
  return ⟨← groupDecode note.ephemeralPublicKey.toList,
    note.ciphertext.1.append (note.ciphertext.2.1.append note.ciphertext.2.2)⟩

def FullIncomingNote.tryFrom (note : Config.FullIncomingNote F) :
    Except ScaleError FullIncomingNote := do
  return ⟨note.addressPartition, ← IncomingNote.tryFrom note.incomingNote,
    ← LightIncomingNote.tryFrom note.lightIncomingNote⟩

def FullIncomingNote.tryInto (note : FullIncomingNote) :
    Except ScaleError (Config.FullIncomingNote F) := do
  return ⟨note.addressPartition, ← note.incomingNote.tryInto, ← note.lightIncomingNote.tryInto⟩

def Utxo.tryFrom (utxo : Config.Utxo F) : Except ScaleError Utxo := do
  return ⟨utxo.isTransparent, ← Asset.tryFrom utxo.publicAsset, ← fpEncode utxo.commitment⟩

def Utxo.tryInto (utxo : Utxo) : Except ScaleError (Config.Utxo F) := do
  return ⟨utxo.isTransparent, ← utxo.publicAsset.tryInto, ← fpDecode utxo.commitment.toList⟩

def ReceiverPost.tryInto (post : ReceiverPost) : Except ScaleError (Config.ReceiverPost F) := do
  return ⟨← post.utxo.tryInto, ← post.fullIncomingNote.tryInto⟩

def AuthorizationSignature.tryInto (signature : AuthorizationSignature) :
    Except ScaleError (Config.AuthorizationSignature F) := do
  return ⟨← groupDecode signature.authorizationKey.toList,
    ← scalarDecode signature.signature.1.toList, ← groupDecode signature.signature.2.toList⟩

/-- `TryFrom<TransferPost> for config::TransferPost`. -/
def TransferPost.tryInto (post : TransferPost) : Except ScaleError (Config.TransferPost F) := do
  let proof ← proofDecode post.proof.toList
  let authorizationSignature ← post.authorizationSignature.mapM (·.tryInto)
  let assetId ← post.assetId.mapM fun x => fpDecode x.toList
  let senderPosts ← post.senderPosts.mapM (·.tryInto)
  let receiverPosts ← post.receiverPosts.mapM (·.tryInto)
  return ⟨authorizationSignature, ⟨assetId, post.sources.map assetValueDecode, senderPosts,
    receiverPosts, post.sinks.map assetValueDecode, proof⟩⟩

def CurrentPath.tryFrom (path : Config.CurrentPath F) : Except ScaleError CurrentPath := do
  return ⟨← fpEncode path.siblingDigest, BitVec.ofNat 32 path.leafIndex,
    ← path.innerPath.mapM fpEncode⟩

def CurrentPath.tryInto (path : CurrentPath) : Except ScaleError (Config.CurrentPath F) := do
  return ⟨← fpDecode path.siblingDigest.toList, path.leafIndex.toNat,
    ← path.innerPath.mapM fun x => fpDecode x.toList⟩

end Conversions

/-- Field and group elements are encoded in 32 bytes. -/
structure Fields.FixedLength (F : Fields) : Prop where
  fp : ∀ x, (F.fp.toVec x).length = 32
  group : ∀ x, (F.group.toVec x).length = 32

section Encoding
variable {F : Fields} (hF : F.FixedLength)
include hF

theorem Fields.FixedLength.fpEncode (x : F.Fp) : ∃ b, fpEncode x = .ok b :=
  encodeArray_total (hF.fp x)

theorem Fields.FixedLength.groupEncode (x : F.Group) : ∃ b, groupEncode x = .ok b :=
  encodeArray_total (hF.group x)

theorem Fields.FixedLength.outgoingNote (note : Config.OutgoingNote F) :
    ∃ b, OutgoingNote.tryFrom note = .ok b := by
  obtain ⟨e, he⟩ := hF.groupEncode note.ephemeralPublicKey
  exact ⟨_, by simp only [OutgoingNote.tryFrom, he]; rfl⟩

theorem Fields.FixedLength.incomingNote (note : Config.IncomingNote F) :
    ∃ b, IncomingNote.tryFrom note = .ok b := by
  obtain ⟨e, he⟩ := hF.groupEncode note.ephemeralPublicKey
  obtain ⟨t, ht⟩ := hF.fpEncode note.tag
  obtain ⟨m₀, h₀⟩ := hF.fpEncode note.message.1
  obtain ⟨m₁, h₁⟩ := hF.fpEncode note.message.2.1
  obtain ⟨m₂, h₂⟩ := hF.fpEncode note.message.2.2
  exact ⟨_, by simp only [IncomingNote.tryFrom, he, ht, h₀, h₁, h₂]; rfl⟩

theorem Fields.FixedLength.lightIncomingNote (note : Config.LightIncomingNote F) :
    ∃ b, LightIncomingNote.tryFrom note = .ok b := by
  obtain ⟨e, he⟩ := hF.groupEncode note.ephemeralPublicKey
  exact ⟨_, by simp only [LightIncomingNote.tryFrom, he]; rfl⟩

theorem Fields.FixedLength.fullIncomingNote (note : Config.FullIncomingNote F) :
    ∃ b, FullIncomingNote.tryFrom note = .ok b := by
  obtain ⟨i, hi⟩ := hF.incomingNote note.incomingNote
  obtain ⟨l, hl⟩ := hF.lightIncomingNote note.lightIncomingNote
  exact ⟨_, by simp only [FullIncomingNote.tryFrom, hi, hl]; rfl⟩

theorem Fields.FixedLength.utxo (utxo : Config.Utxo F) : ∃ b, Utxo.tryFrom utxo = .ok b := by
  obtain ⟨i, hi⟩ := hF.fpEncode utxo.publicAsset.id
  obtain ⟨m, hm⟩ := hF.fpEncode utxo.commitment
  exact ⟨_, by simp only [Utxo.tryFrom, Asset.tryFrom, hi, hm]; rfl⟩

end Encoding

section Roundtrip
variable {c : Crypto} (hc : c.Lawful)
include hc

theorem Crypto.Lawful.fixedLength : c.toFields.FixedLength := ⟨hc.fp_length, hc.group_length⟩

theorem fpEncode_total (x : c.Fp) : ∃ b, fpEncode (F := c.toFields) x = .ok b :=
  hc.fixedLength.fpEncode x

theorem fpDecode_fpEncode {x : c.Fp} {b : Bytes 32} (h : fpEncode (F := c.toFields) x = .ok b) :
    fpDecode b.toList = .ok x := by
  have hb : b.toList = c.fp.toVec x := encodeArray_eq_ok.mp h
  exact decodeVec_eq_ok.mpr (hb ▸ hc.fp_decode x)

theorem fpEncode_inj {x y : c.Fp} {b : Bytes 32} (hx : fpEncode (F := c.toFields) x = .ok b)
    (hy : fpEncode (F := c.toFields) y = .ok b) : x = y := by
  have h := fpDecode_fpEncode hc hx
  rw [fpDecode_fpEncode hc hy] at h
  exact (Except.ok.inj h).symm

theorem FullIncomingNote.tryFrom_total (note : Config.FullIncomingNote c.toFields) :
    ∃ b, FullIncomingNote.tryFrom note = .ok b :=
  hc.fixedLength.fullIncomingNote note

theorem Utxo.tryFrom_total (utxo : Config.Utxo c.toFields) : ∃ b, Utxo.tryFrom utxo = .ok b :=
  hc.fixedLength.utxo utxo

/-- A UTXO is read back from its stored form. -/
theorem Utxo.tryInto_tryFrom {utxo : Config.Utxo c.toFields} {b : Utxo}
    (h : Utxo.tryFrom utxo = .ok b) : b.tryInto = .ok utxo := by
  obtain ⟨i, hi⟩ := fpEncode_total hc utxo.publicAsset.id
  obtain ⟨m, hm⟩ := fpEncode_total hc utxo.commitment
  simp only [Utxo.tryFrom, Asset.tryFrom, hi, hm] at h
  obtain rfl := Except.ok.inj h
  simp only [Utxo.tryInto, Asset.tryInto, fpDecode_fpEncode hc hi, fpDecode_fpEncode hc hm,
    assetValueDecode_encode]
  rfl

theorem Utxo.tryFrom_inj {u v : Config.Utxo c.toFields} {b : Utxo}
    (hu : Utxo.tryFrom u = .ok b) (hv : Utxo.tryFrom v = .ok b) : u = v := by
  have h := Utxo.tryInto_tryFrom hc hu
  rw [Utxo.tryInto_tryFrom hc hv] at h
  exact (Except.ok.inj h).symm

theorem mapM_fpEncode_total (xs : List c.Fp) :
    ∃ bs, xs.mapM (fpEncode (F := c.toFields)) = .ok bs ∧
      bs.mapM (fun b => fpDecode (F := c.toFields) b.toList) = .ok xs := by
  induction xs with
  | nil => exact ⟨[], rfl, rfl⟩
  | cons x xs ih =>
    obtain ⟨b, hb⟩ := fpEncode_total hc x
    obtain ⟨bs, hbs, hxs⟩ := ih
    refine ⟨b :: bs, ?_, ?_⟩
    · simp only [List.mapM_cons, hb, hbs]
      rfl
    · simp only [List.mapM_cons, fpDecode_fpEncode hc hb, hxs]
      rfl

/-- A path whose index fits a `u32` is stored and read back. -/
theorem CurrentPath.tryFrom_total (path : Config.CurrentPath c.toFields)
    (h : path.leafIndex < 2 ^ 32) :
    ∃ b, CurrentPath.tryFrom path = .ok b ∧ b.tryInto = .ok path ∧
      b.leafIndex.toNat = path.leafIndex := by
  obtain ⟨d, hd⟩ := fpEncode_total hc path.siblingDigest
  obtain ⟨bs, hbs, hxs⟩ := mapM_fpEncode_total hc path.innerPath
  have hi : (BitVec.ofNat 32 path.leafIndex).toNat = path.leafIndex := by
    rw [BitVec.toNat_ofNat]
    exact Nat.mod_eq_of_lt h
  refine ⟨⟨d, BitVec.ofNat 32 path.leafIndex, bs⟩, ?_, ?_, hi⟩
  · simp only [CurrentPath.tryFrom, hd, hbs]
    rfl
  · simp only [CurrentPath.tryInto, fpDecode_fpEncode hc hd, hxs, hi]
    rfl

end Roundtrip

end ZkNft
