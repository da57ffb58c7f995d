import ZkNft.Lib.Roundtrip
import ZkNft.MantaPay.Sample

/-! The conversions of a transfer post from and to the manta-rs type, as mutual inverses. -/

namespace ZkNft

def PROOF_ENCODE := "Proof encoding to [u8; 128] failed."

/-- The codec works on `n` bytes, in both directions. -/
structure Codec.Canonical {α : Type} (k : Codec α) (n : ℕ) : Prop where
  length : ∀ x, (k.toVec x).length = n
  decode : ∀ x, k.tryFrom (k.toVec x) = some x
  encode : ∀ bs x, bs.length = n → k.tryFrom bs = some x → k.toVec x = bs

/-- The codec writes a header of eight bytes in front of the `n` bytes that it reads. -/
structure Codec.Headed {α : Type} (k : Codec α) (n : ℕ) : Prop where
  length : ∀ x, (k.toVec x).length = 8 + n
  decode : ∀ x, k.tryFrom ((k.toVec x).drop 8) = some x
  encode : ∀ bs x, bs.length = n → k.tryFrom bs = some x → (k.toVec x).drop 8 = bs

/-- What the conversions of notes rely on in the algebraic types. -/
structure Fields.CanonicalElements (F : Fields) : Prop where
  fp : F.fp.Canonical 32
  group : F.group.Canonical 32

/-- What the conversions of posts rely on. -/
structure Fields.Canonical (F : Fields) : Prop extends F.CanonicalElements where
  scalar : F.scalar.Canonical 32
  proof : F.proof.Headed 128

section Encoders
variable {F : Fields}

def scalarEncode (x : F.Scalar) : Except ScaleError (Bytes 32) :=
  encodeArray F.scalar 32 FP_ENCODE x

/-- The slice from byte 8 on traps on fewer bytes. -/
def proofEncode (proof : F.Proof) : Exec ScaleError (Bytes 128) :=
  let bytes := F.proof.toVec proof
  if bytes.length < 8 then .trap .index
  else Exec.okOr (Bytes.ofList? 128 (bytes.drop 8)) ⟨PROOF_ENCODE⟩

def SenderPost.tryFrom (post : Config.SenderPost F) : Except ScaleError SenderPost := do
  return ⟨← fpEncode post.utxoAccumulatorOutput, ← fpEncode post.nullifier.commitment,
    ← OutgoingNote.tryFrom post.nullifier.outgoingNote⟩

def ReceiverPost.tryFrom (post : Config.ReceiverPost F) : Except ScaleError ReceiverPost := do
  return ⟨← Utxo.tryFrom post.utxo, ← FullIncomingNote.tryFrom post.note⟩

def AuthorizationSignature.tryFrom (signature : Config.AuthorizationSignature F) :
    Except ScaleError AuthorizationSignature := do
  return ⟨← groupEncode signature.authorizationKey, ← scalarEncode signature.scalar,
    ← groupEncode signature.noncePoint⟩

/-- `TryFrom<config::TransferPost> for TransferPost`. -/
def TransferPost.tryFrom (post : Config.TransferPost F) : Exec ScaleError TransferPost := do
  let authorizationSignature ←
    Exec.lift (post.authorizationSignature.mapM AuthorizationSignature.tryFrom)
  let assetId ← Exec.lift (post.body.assetId.mapM fpEncode)
  let sources := post.body.sources.map assetValueEncode
  let senderPosts ← Exec.lift (post.body.senderPosts.mapM SenderPost.tryFrom)
  let receiverPosts ← Exec.lift (post.body.receiverPosts.mapM ReceiverPost.tryFrom)
  let sinks := post.body.sinks.map assetValueEncode
  let proof ← proofEncode post.body.proof
  return ⟨authorizationSignature, assetId, sources, senderPosts, receiverPosts, sinks, proof⟩

end Encoders

section Primitive

theorem Codec.Canonical.mutual {α : Type} {k : Codec α} {n : ℕ} (h : k.Canonical n)
    (msg msg' : String) :
    Mutual (encodeArray k n msg) fun b => decodeVec k msg' b.toList := by
  intro x b
  rw [encodeArray_eq_ok, decodeVec_eq_ok]
  constructor
  · intro hb
    rw [hb]
    exact h.decode x
  · intro hx
    exact (h.encode b.toList x b.length_eq hx).symm

@[simp] theorem assetValueEncode_decode (b : Bytes 16) :
    assetValueEncode (assetValueDecode b) = b := by
  have hlt := Bytes.ofLE_lt b.toList
  rw [b.length_eq] at hlt
  have hnat : (assetValueDecode b).toNat = Bytes.ofLE b.toList := by
    unfold assetValueDecode
    rw [BitVec.toNat_ofNat]
    exact Nat.mod_eq_of_lt hlt
  apply Bytes.ext
  show Bytes.toLE 16 (assetValueDecode b).toNat = b.toList
  rw [hnat]
  have hround := Bytes.toLE_ofLE b.toList
  rwa [b.length_eq] at hround

theorem assetValueEncode_eq_iff {v : AssetValue} {b : Bytes 16} :
    assetValueEncode v = b ↔ assetValueDecode b = v := by
  constructor
  · rintro rfl
    exact assetValueDecode_encode v
  · rintro rfl
    exact assetValueEncode_decode b

end Primitive

section Inversion
variable {F : Fields}

theorem Asset.tryFrom_eq_ok {a : Config.Asset F} {b : Asset} :
    Asset.tryFrom a = .ok b ↔ fpEncode a.id = .ok b.id ∧ assetValueEncode a.value = b.value := by
  cases b
  simp [Asset.tryFrom, Exec.except_bind_eq_ok, pure, Except.pure]

theorem Asset.tryInto_eq_ok {b : Asset} {a : Config.Asset F} :
    b.tryInto = .ok a ↔ fpDecode b.id.toList = .ok a.id ∧ assetValueDecode b.value = a.value := by
  cases a
  simp [Asset.tryInto, Exec.except_bind_eq_ok, pure, Except.pure]

theorem OutgoingNote.tryFrom_eq_ok {a : Config.OutgoingNote F} {b : OutgoingNote} :
    OutgoingNote.tryFrom a = .ok b ↔ groupEncode a.ephemeralPublicKey = .ok b.ephemeralPublicKey ∧
      Bytes.split 32 (k := 32) a.ciphertext = b.ciphertext := by
  cases b
  simp [OutgoingNote.tryFrom, Exec.except_bind_eq_ok, pure, Except.pure]

theorem IncomingNote.tryFrom_eq_ok {a : Config.IncomingNote F} {b : IncomingNote} :
    IncomingNote.tryFrom a = .ok b ↔ groupEncode a.ephemeralPublicKey = .ok b.ephemeralPublicKey ∧
      fpEncode a.tag = .ok b.tag ∧ fpEncode a.message.1 = .ok b.ciphertext.1 ∧
      fpEncode a.message.2.1 = .ok b.ciphertext.2.1 ∧
      fpEncode a.message.2.2 = .ok b.ciphertext.2.2 := by
  obtain ⟨e, t, c₀, c₁, c₂⟩ := b
  simp [IncomingNote.tryFrom, Exec.except_bind_eq_ok, pure, Except.pure]

theorem OutgoingNote.tryInto_eq_ok {b : OutgoingNote} {a : Config.OutgoingNote F} :
    b.tryInto = .ok a ↔ groupDecode b.ephemeralPublicKey.toList = .ok a.ephemeralPublicKey ∧
      b.ciphertext.1.append b.ciphertext.2 = a.ciphertext := by
  cases a
  simp [OutgoingNote.tryInto, Exec.except_bind_eq_ok, pure, Except.pure]

theorem IncomingNote.tryInto_eq_ok {b : IncomingNote} {a : Config.IncomingNote F} :
    b.tryInto = .ok a ↔ groupDecode b.ephemeralPublicKey.toList = .ok a.ephemeralPublicKey ∧
      fpDecode b.tag.toList = .ok a.tag ∧ fpDecode b.ciphertext.1.toList = .ok a.message.1 ∧
      fpDecode b.ciphertext.2.1.toList = .ok a.message.2.1 ∧
      fpDecode b.ciphertext.2.2.toList = .ok a.message.2.2 := by
  obtain ⟨e, t, m₀, m₁, m₂⟩ := a
  simp [IncomingNote.tryInto, Exec.except_bind_eq_ok, pure, Except.pure]

theorem LightIncomingNote.tryFrom_eq_ok {a : Config.LightIncomingNote F} {b : LightIncomingNote} :
    LightIncomingNote.tryFrom a = .ok b ↔
      groupEncode a.ephemeralPublicKey = .ok b.ephemeralPublicKey ∧
      (Bytes.split 32 (k := 64) a.ciphertext).1 = b.ciphertext.1 ∧
      Bytes.split 32 (k := 32) (Bytes.split 32 (k := 64) a.ciphertext).2 = b.ciphertext.2 := by
  obtain ⟨e, c₀, c₁⟩ := b
  simp [LightIncomingNote.tryFrom, Exec.except_bind_eq_ok, pure, Except.pure]

theorem LightIncomingNote.tryInto_eq_ok {b : LightIncomingNote} {a : Config.LightIncomingNote F} :
    b.tryInto = .ok a ↔ groupDecode b.ephemeralPublicKey.toList = .ok a.ephemeralPublicKey ∧
      b.ciphertext.1.append (b.ciphertext.2.1.append b.ciphertext.2.2) = a.ciphertext := by
  cases a
  simp [LightIncomingNote.tryInto, Exec.except_bind_eq_ok, pure, Except.pure]

theorem FullIncomingNote.tryFrom_eq_ok {a : Config.FullIncomingNote F} {b : FullIncomingNote} :
    FullIncomingNote.tryFrom a = .ok b ↔ a.addressPartition = b.addressPartition ∧
      IncomingNote.tryFrom a.incomingNote = .ok b.incomingNote ∧
      LightIncomingNote.tryFrom a.lightIncomingNote = .ok b.lightIncomingNote := by
  cases b
  simp [FullIncomingNote.tryFrom, Exec.except_bind_eq_ok, pure, Except.pure]
  tauto

theorem FullIncomingNote.tryInto_eq_ok {b : FullIncomingNote} {a : Config.FullIncomingNote F} :
    b.tryInto = .ok a ↔ a.addressPartition = b.addressPartition ∧
      b.incomingNote.tryInto = .ok a.incomingNote ∧
      b.lightIncomingNote.tryInto = .ok a.lightIncomingNote := by
  cases a
  simp [FullIncomingNote.tryInto, Exec.except_bind_eq_ok, pure, Except.pure]
  tauto

theorem Utxo.tryFrom_eq_ok {a : Config.Utxo F} {b : Utxo} :
    Utxo.tryFrom a = .ok b ↔ a.isTransparent = b.isTransparent ∧
      Asset.tryFrom a.publicAsset = .ok b.publicAsset ∧
      fpEncode a.commitment = .ok b.commitment := by
  cases b
  simp [Utxo.tryFrom, Exec.except_bind_eq_ok, pure, Except.pure]
  tauto

theorem Utxo.tryInto_eq_ok {b : Utxo} {a : Config.Utxo F} :
    b.tryInto = .ok a ↔ a.isTransparent = b.isTransparent ∧
      b.publicAsset.tryInto = .ok a.publicAsset ∧
      fpDecode b.commitment.toList = .ok a.commitment := by
  cases a
  simp [Utxo.tryInto, Exec.except_bind_eq_ok, pure, Except.pure]
  tauto

theorem SenderPost.tryFrom_eq_ok {a : Config.SenderPost F} {b : SenderPost} :
    SenderPost.tryFrom a = .ok b ↔
      fpEncode a.utxoAccumulatorOutput = .ok b.utxoAccumulatorOutput ∧
      fpEncode a.nullifier.commitment = .ok b.nullifierCommitment ∧
      OutgoingNote.tryFrom a.nullifier.outgoingNote = .ok b.outgoingNote := by
  cases b
  simp [SenderPost.tryFrom, Exec.except_bind_eq_ok, pure, Except.pure]

theorem SenderPost.tryInto_eq_ok {b : SenderPost} {a : Config.SenderPost F} :
    b.tryInto = .ok a ↔ fpDecode b.utxoAccumulatorOutput.toList = .ok a.utxoAccumulatorOutput ∧
      fpDecode b.nullifierCommitment.toList = .ok a.nullifier.commitment ∧
      b.outgoingNote.tryInto = .ok a.nullifier.outgoingNote := by
  obtain ⟨o, m, n⟩ := a
  simp [SenderPost.tryInto, Exec.except_bind_eq_ok, pure, Except.pure]

theorem ReceiverPost.tryFrom_eq_ok {a : Config.ReceiverPost F} {b : ReceiverPost} :
    ReceiverPost.tryFrom a = .ok b ↔ Utxo.tryFrom a.utxo = .ok b.utxo ∧
      FullIncomingNote.tryFrom a.note = .ok b.fullIncomingNote := by
  cases b
  simp [ReceiverPost.tryFrom, Exec.except_bind_eq_ok, pure, Except.pure]

theorem ReceiverPost.tryInto_eq_ok {b : ReceiverPost} {a : Config.ReceiverPost F} :
    b.tryInto = .ok a ↔ b.utxo.tryInto = .ok a.utxo ∧
      b.fullIncomingNote.tryInto = .ok a.note := by
  cases a
  simp [ReceiverPost.tryInto, Exec.except_bind_eq_ok, pure, Except.pure]

theorem AuthorizationSignature.tryFrom_eq_ok {a : Config.AuthorizationSignature F}
    {b : AuthorizationSignature} : AuthorizationSignature.tryFrom a = .ok b ↔
      groupEncode a.authorizationKey = .ok b.authorizationKey ∧
      scalarEncode a.scalar = .ok b.signature.1 ∧ groupEncode a.noncePoint = .ok b.signature.2 := by
  obtain ⟨k, z, n⟩ := b
  simp [AuthorizationSignature.tryFrom, Exec.except_bind_eq_ok, pure, Except.pure]

theorem AuthorizationSignature.tryInto_eq_ok {b : AuthorizationSignature}
    {a : Config.AuthorizationSignature F} : b.tryInto = .ok a ↔
      groupDecode b.authorizationKey.toList = .ok a.authorizationKey ∧
      scalarDecode b.signature.1.toList = .ok a.scalar ∧
      groupDecode b.signature.2.toList = .ok a.noncePoint := by
  cases a
  simp [AuthorizationSignature.tryInto, Exec.except_bind_eq_ok, pure, Except.pure]

theorem proofEncode_eq_ok {x : F.Proof} {b : Bytes 128} (h : 8 ≤ (F.proof.toVec x).length) :
    proofEncode x = .ok b ↔ b.toList = (F.proof.toVec x).drop 8 := by
  unfold proofEncode
  simp only
  rw [if_neg (not_lt.mpr h), Exec.okOr_eq_ok, Bytes.ofList?_eq_some]

theorem TransferPost.tryFrom_eq_ok {a : Config.TransferPost F} {b : TransferPost} :
    TransferPost.tryFrom a = .ok b ↔
      a.authorizationSignature.mapM AuthorizationSignature.tryFrom =
        .ok b.authorizationSignature ∧
      a.body.assetId.mapM fpEncode = .ok b.assetId ∧
      a.body.sources.map assetValueEncode = b.sources ∧
      a.body.senderPosts.mapM SenderPost.tryFrom = .ok b.senderPosts ∧
      a.body.receiverPosts.mapM ReceiverPost.tryFrom = .ok b.receiverPosts ∧
      a.body.sinks.map assetValueEncode = b.sinks ∧ proofEncode a.body.proof = .ok b.proof := by
  cases b
  simp [TransferPost.tryFrom, Exec.bind_eq_ok]
  tauto

theorem TransferPost.tryInto_eq_ok {b : TransferPost} {a : Config.TransferPost F} :
    b.tryInto = .ok a ↔
      b.authorizationSignature.mapM (·.tryInto) = .ok a.authorizationSignature ∧
      b.assetId.mapM (fun x => fpDecode x.toList) = .ok a.body.assetId ∧
      b.sources.map assetValueDecode = a.body.sources ∧
      b.senderPosts.mapM (·.tryInto) = .ok a.body.senderPosts ∧
      b.receiverPosts.mapM (·.tryInto) = .ok a.body.receiverPosts ∧
      b.sinks.map assetValueDecode = a.body.sinks ∧
      proofDecode b.proof.toList = .ok a.body.proof := by
  obtain ⟨s, i, src, sp, rp, snk, pr⟩ := a
  simp [TransferPost.tryInto, Exec.except_bind_eq_ok, pure, Except.pure]
  tauto

end Inversion

section Mutual
variable {F : Fields}

section Elements
variable (hF : F.CanonicalElements)
include hF

theorem Fields.CanonicalElements.fixedLength : F.FixedLength := ⟨hF.fp.length, hF.group.length⟩

theorem fp_mutual : Mutual (fpEncode (F := F)) fun b => fpDecode b.toList :=
  hF.fp.mutual FP_ENCODE FP_DECODE

theorem group_mutual : Mutual (groupEncode (F := F)) fun b => groupDecode b.toList :=
  hF.group.mutual GROUP_ENCODE GROUP_DECODE

theorem Asset.mutual : Mutual (Asset.tryFrom (F := F)) Asset.tryInto := by
  intro a b
  rw [Asset.tryFrom_eq_ok, Asset.tryInto_eq_ok, fp_mutual hF, assetValueEncode_eq_iff]

theorem OutgoingNote.mutual : Mutual (OutgoingNote.tryFrom (F := F)) OutgoingNote.tryInto := by
  intro a b
  rw [OutgoingNote.tryFrom_eq_ok, OutgoingNote.tryInto_eq_ok, group_mutual hF, Bytes.split_eq_iff]

theorem IncomingNote.mutual : Mutual (IncomingNote.tryFrom (F := F)) IncomingNote.tryInto := by
  intro a b
  simp only [IncomingNote.tryFrom_eq_ok, IncomingNote.tryInto_eq_ok, group_mutual hF _ _,
    fp_mutual hF _ _]

theorem LightIncomingNote.mutual :
    Mutual (LightIncomingNote.tryFrom (F := F)) LightIncomingNote.tryInto := by
  intro a b
  have hflat : (Bytes.split 32 (k := 64) a.ciphertext).1 = b.ciphertext.1 ∧
      Bytes.split 32 (k := 32) (Bytes.split 32 (k := 64) a.ciphertext).2 = b.ciphertext.2 ↔
      b.ciphertext.1.append (b.ciphertext.2.1.append b.ciphertext.2.2) = a.ciphertext := by
    have hpair := Bytes.split_eq_iff (c := a.ciphertext)
      (p := (b.ciphertext.1, b.ciphertext.2.1.append b.ciphertext.2.2))
    rw [Bytes.split_eq_iff, ← hpair, Prod.ext_iff, eq_comm (b := (Bytes.split 32 _).2)]
  rw [LightIncomingNote.tryFrom_eq_ok, LightIncomingNote.tryInto_eq_ok, group_mutual hF, hflat]

theorem FullIncomingNote.mutual :
    Mutual (FullIncomingNote.tryFrom (F := F)) FullIncomingNote.tryInto := by
  intro a b
  rw [FullIncomingNote.tryFrom_eq_ok, FullIncomingNote.tryInto_eq_ok, IncomingNote.mutual hF,
    LightIncomingNote.mutual hF]

theorem Utxo.mutual : Mutual (Utxo.tryFrom (F := F)) Utxo.tryInto := by
  intro a b
  rw [Utxo.tryFrom_eq_ok, Utxo.tryInto_eq_ok, Asset.mutual hF, fp_mutual hF]

end Elements

variable (hF : F.Canonical)
include hF

theorem scalar_mutual : Mutual (scalarEncode (F := F)) fun b => scalarDecode b.toList :=
  hF.scalar.mutual FP_ENCODE FP_DECODE

theorem SenderPost.mutual : Mutual (SenderPost.tryFrom (F := F)) SenderPost.tryInto := by
  intro a b
  simp only [SenderPost.tryFrom_eq_ok, SenderPost.tryInto_eq_ok,
    fp_mutual hF.toCanonicalElements _ _, OutgoingNote.mutual hF.toCanonicalElements _ _]

theorem ReceiverPost.mutual : Mutual (ReceiverPost.tryFrom (F := F)) ReceiverPost.tryInto := by
  intro a b
  rw [ReceiverPost.tryFrom_eq_ok, ReceiverPost.tryInto_eq_ok, Utxo.mutual hF.toCanonicalElements,
    FullIncomingNote.mutual hF.toCanonicalElements]

theorem AuthorizationSignature.mutual :
    Mutual (AuthorizationSignature.tryFrom (F := F)) AuthorizationSignature.tryInto := by
  intro a b
  simp only [AuthorizationSignature.tryFrom_eq_ok, AuthorizationSignature.tryInto_eq_ok,
    group_mutual hF.toCanonicalElements _ _, scalar_mutual hF _ _]

/-- The eight bytes that the encoder drops are not missed by the decoder. -/
theorem proof_mutual {x : F.Proof} {b : Bytes 128} :
    proofEncode x = .ok b ↔ proofDecode b.toList = .ok x := by
  have hlen : 8 ≤ (F.proof.toVec x).length := by
    rw [hF.proof.length x]
    omega
  rw [proofEncode_eq_ok hlen, proofDecode, decodeVec_eq_ok]
  constructor
  · intro hb
    rw [hb]
    exact hF.proof.decode x
  · intro hx
    exact (hF.proof.encode b.toList x b.length_eq hx).symm

/-- One conversion of a post gives the argument of the other back. -/
theorem TransferPost.tryFrom_iff_tryInto {a : Config.TransferPost F} {b : TransferPost} :
    TransferPost.tryFrom a = .ok b ↔ b.tryInto = .ok a := by
  have hvalues : ∀ (vs : List AssetValue) (bs : List (Bytes 16)),
      vs.map assetValueEncode = bs ↔ bs.map assetValueDecode = vs := by
    intro vs bs
    constructor
    · rintro rfl
      simp [Function.comp_def]
    · rintro rfl
      simp [Function.comp_def]
  rw [TransferPost.tryFrom_eq_ok, TransferPost.tryInto_eq_ok,
    (AuthorizationSignature.mutual hF).option, (fp_mutual hF.toCanonicalElements).option, hvalues,
    (SenderPost.mutual hF).list, (ReceiverPost.mutual hF).list, hvalues, proof_mutual hF]

end Mutual

section Total
variable {F : Fields} (hF : F.Canonical)
include hF

theorem SenderPost.tryFrom_returns (a : Config.SenderPost F) :
    ∃ b, SenderPost.tryFrom a = .ok b := by
  obtain ⟨o, ho⟩ := hF.fixedLength.fpEncode a.utxoAccumulatorOutput
  obtain ⟨m, hm⟩ := hF.fixedLength.fpEncode a.nullifier.commitment
  obtain ⟨n, hn⟩ := hF.fixedLength.outgoingNote a.nullifier.outgoingNote
  exact ⟨⟨o, m, n⟩, SenderPost.tryFrom_eq_ok.mpr ⟨ho, hm, hn⟩⟩

theorem ReceiverPost.tryFrom_returns (a : Config.ReceiverPost F) :
    ∃ b, ReceiverPost.tryFrom a = .ok b := by
  obtain ⟨u, hu⟩ := hF.fixedLength.utxo a.utxo
  obtain ⟨n, hn⟩ := hF.fixedLength.fullIncomingNote a.note
  exact ⟨⟨u, n⟩, ReceiverPost.tryFrom_eq_ok.mpr ⟨hu, hn⟩⟩

theorem AuthorizationSignature.tryFrom_returns (a : Config.AuthorizationSignature F) :
    ∃ b, AuthorizationSignature.tryFrom a = .ok b := by
  obtain ⟨k, hk⟩ := hF.fixedLength.groupEncode a.authorizationKey
  obtain ⟨z, hz⟩ : ∃ z, scalarEncode a.scalar = .ok z := encodeArray_total (hF.scalar.length _)
  obtain ⟨n, hn⟩ := hF.fixedLength.groupEncode a.noncePoint
  exact ⟨⟨k, z, n⟩, AuthorizationSignature.tryFrom_eq_ok.mpr ⟨hk, hz, hn⟩⟩

theorem proofEncode_returns (x : F.Proof) : ∃ b, proofEncode x = .ok b := by
  have hlen := hF.proof.length x
  have hbody : ((F.proof.toVec x).drop 8).length = 128 := by
    rw [List.length_drop, hlen]
  refine ⟨⟨_, hbody⟩, (proofEncode_eq_ok ?_).mpr rfl⟩
  omega

theorem TransferPost.tryFrom_returns (a : Config.TransferPost F) :
    ∃ b, TransferPost.tryFrom a = .ok b := by
  obtain ⟨s, hs⟩ := Exec.except_option_mapM_total
    (AuthorizationSignature.tryFrom_returns hF) a.authorizationSignature
  obtain ⟨i, hi⟩ := Exec.except_option_mapM_total hF.fixedLength.fpEncode a.body.assetId
  obtain ⟨sp, hsp⟩ := Exec.except_mapM_total (SenderPost.tryFrom_returns hF) a.body.senderPosts
  obtain ⟨rp, hrp⟩ := Exec.except_mapM_total (ReceiverPost.tryFrom_returns hF) a.body.receiverPosts
  obtain ⟨pr, hpr⟩ := proofEncode_returns hF a.body.proof
  exact ⟨⟨s, i, _, sp, rp, _, pr⟩,
    TransferPost.tryFrom_eq_ok.mpr ⟨hs, hi, rfl, hsp, hrp, rfl, hpr⟩⟩

/-- A manta-rs post survives the way into the pallet's type and back, and a post of the pallet that
can be read is written again byte for byte. -/
theorem transferPost_roundtrip :
    (∀ a : Config.TransferPost F, ∃ b, TransferPost.tryFrom a = .ok b ∧ b.tryInto = .ok a) ∧
      ∀ (b : TransferPost) (a : Config.TransferPost F), b.tryInto = .ok a →
        TransferPost.tryFrom a = .ok b := by
  constructor
  · intro a
    obtain ⟨b, hb⟩ := TransferPost.tryFrom_returns hF a
    exact ⟨b, hb, (TransferPost.tryFrom_iff_tryInto hF).mp hb⟩
  · intro b a h
    exact (TransferPost.tryFrom_iff_tryInto hF).mpr h

end Total

section Witness

theorem Sample.codec_canonical (n : ℕ) : (Sample.codec n).Canonical n where
  length x := x.length_eq
  decode x := Bytes.ofList?_toList x
  encode _ _ _ h := Bytes.ofList?_eq_some.mp h

/-- The algebraic types as byte arrays, proofs written behind a header of eight zeros. -/
abbrev headedFields : Fields :=
  { Sample.fields with proof := ⟨fun b => List.replicate 8 0 ++ b.toList, Bytes.ofList? 128⟩ }

theorem headedFields_canonical : headedFields.Canonical where
  fp := Sample.codec_canonical 32
  scalar := Sample.codec_canonical 32
  group := Sample.codec_canonical 32
  proof :=
    { length := fun x => by
        rw [List.length_append, List.length_replicate, x.length_eq]
      decode := fun x => Bytes.ofList?_toList x
      encode := fun _ _ _ h => Bytes.ofList?_eq_some.mp h }

theorem transferPost_roundtrip_headed :
    (∀ a : Config.TransferPost headedFields,
      ∃ b, TransferPost.tryFrom a = .ok b ∧ b.tryInto = .ok a) ∧
      ∀ (b : TransferPost) (a : Config.TransferPost headedFields), b.tryInto = .ok a →
        TransferPost.tryFrom a = .ok b :=
  transferPost_roundtrip headedFields_canonical

end Witness
end ZkNft
