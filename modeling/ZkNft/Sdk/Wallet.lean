import ZkNft.MantaPay.PostCodec
import ZkNft.Sdk.Api

/-! The wallet crate's reading of a pull response, and the way of a note from the pallet to it. -/

namespace ZkNft
namespace Sdk

structure RawAsset where
  id : Bytes 32
  value : Bytes 16

structure RawUtxo where
  isTransparent : Bool
  publicAsset : RawAsset
  commitment : Bytes 32

structure RawLightIncomingNote where
  ephemeralPublicKey : Bytes 32
  ciphertext : Bytes 32 × Bytes 32 × Bytes 32

structure RawIncomingNote where
  ephemeralPublicKey : Bytes 32
  tag : Bytes 32
  ciphertext : Bytes 32 × Bytes 32 × Bytes 32

structure RawOutgoingNote where
  ephemeralPublicKey : Bytes 32
  ciphertext : Bytes 32 × Bytes 32

structure RawFullIncomingNote where
  addressPartition : UInt8
  incomingNote : RawIncomingNote
  lightIncomingNote : RawLightIncomingNote

structure RawPullResponse where
  shouldContinue : Bool
  receivers : List (RawUtxo × RawFullIncomingNote)
  senders : List (Bytes 32 × RawOutgoingNote)

/-- `ReadResponse<SyncData>` of manta-rs. -/
structure ReadResponse (F : Fields) where
  shouldContinue : Bool
  utxoNoteData : List (Config.Utxo F × Config.FullIncomingNote F)
  nullifierData : List (Config.Nullifier F)

section Deserialize

def RawAsset.deserialize (v : Json) : Option RawAsset := do
  let [id, value] ← v.toStruct? ["id", "value"] | none
  return ⟨← id.toBytes? 32, ← value.toBytes? 16⟩

def RawUtxo.deserialize (v : Json) : Option RawUtxo := do
  let [isTransparent, publicAsset, commitment] ←
    v.toStruct? ["is_transparent", "public_asset", "commitment"] | none
  return ⟨← isTransparent.toBool?, ← RawAsset.deserialize publicAsset, ← commitment.toBytes? 32⟩

def RawLightIncomingNote.deserialize (v : Json) : Option RawLightIncomingNote := do
  let [ephemeralPublicKey, ciphertext] ←
    v.toStruct? ["ephemeral_public_key", "ciphertext"] | none
  return ⟨← ephemeralPublicKey.toBytes? 32, ← ciphertext.toTriple? (·.toBytes? 32)⟩

def RawIncomingNote.deserialize (v : Json) : Option RawIncomingNote := do
  let [ephemeralPublicKey, tag, ciphertext] ←
    v.toStruct? ["ephemeral_public_key", "tag", "ciphertext"] | none
  return ⟨← ephemeralPublicKey.toBytes? 32, ← tag.toBytes? 32,
    ← ciphertext.toTriple? (·.toBytes? 32)⟩

def RawOutgoingNote.deserialize (v : Json) : Option RawOutgoingNote := do
  let [ephemeralPublicKey, ciphertext] ←
    v.toStruct? ["ephemeral_public_key", "ciphertext"] | none
  return ⟨← ephemeralPublicKey.toBytes? 32,
    ← ciphertext.toPair? (·.toBytes? 32) (·.toBytes? 32)⟩

def RawFullIncomingNote.deserialize (v : Json) : Option RawFullIncomingNote := do
  let [addressPartition, incomingNote, lightIncomingNote] ←
    v.toStruct? ["address_partition", "incoming_note", "light_incoming_note"] | none
  return ⟨← addressPartition.toU8?, ← RawIncomingNote.deserialize incomingNote,
    ← RawLightIncomingNote.deserialize lightIncomingNote⟩

def RawPullResponse.deserialize (v : Json) : Option RawPullResponse := do
  let [shouldContinue, receivers, senders] ←
    v.toStruct? ["should_continue", "receivers", "senders"] | none
  return ⟨← shouldContinue.toBool?,
    ← receivers.toVec? (·.toPair? RawUtxo.deserialize RawFullIncomingNote.deserialize),
    ← senders.toVec? (·.toPair? (·.toBytes? 32) RawOutgoingNote.deserialize)⟩

end Deserialize

section Convert
variable {F : Fields}

def fpDecode (bytes : List UInt8) : Except ScaleError F.Fp := decodeVec F.fp "Fp Serialize" bytes

def groupDecode (bytes : List UInt8) : Except ScaleError F.Group :=
  decodeVec F.group "Group Serialize" bytes

def RawAsset.tryInto (asset : RawAsset) : Except ScaleError (Config.Asset F) := do
  return ⟨← fpDecode asset.id.toList, assetValueDecode asset.value⟩

def RawUtxo.tryInto (utxo : RawUtxo) : Except ScaleError (Config.Utxo F) := do
  return ⟨utxo.isTransparent, ← RawAsset.tryInto utxo.publicAsset,
    ← fpDecode utxo.commitment.toList⟩

def RawFullIncomingNote.tryInto (note : RawFullIncomingNote) :
    Except ScaleError (Config.FullIncomingNote F) := do
  let light := note.lightIncomingNote.ciphertext
  let encodedIncomingCiphertext := light.1.append (light.2.1.append light.2.2)
  let ephemeralPublicKey ← groupDecode note.incomingNote.ephemeralPublicKey.toList
  let tag ← fpDecode note.incomingNote.tag.toList
  let message := (← fpDecode note.incomingNote.ciphertext.1.toList,
    ← fpDecode note.incomingNote.ciphertext.2.1.toList,
    ← fpDecode note.incomingNote.ciphertext.2.2.toList)
  let lightEphemeralPublicKey ← groupDecode note.lightIncomingNote.ephemeralPublicKey.toList
  return ⟨note.addressPartition, ⟨ephemeralPublicKey, tag, message⟩,
    ⟨lightEphemeralPublicKey, encodedIncomingCiphertext⟩⟩

def RawOutgoingNote.tryInto (note : RawOutgoingNote) :
    Except ScaleError (Config.OutgoingNote F) := do
  return ⟨← groupDecode note.ephemeralPublicKey.toList, note.ciphertext.1.append note.ciphertext.2⟩

/-- `RawNulllifier::try_into`, of a commitment and a note. -/
def RawNulllifier.tryInto (nullifier : Bytes 32 × RawOutgoingNote) :
    Except ScaleError (Config.Nullifier F) := do
  return ⟨← fpDecode nullifier.1.toList, ← RawOutgoingNote.tryInto nullifier.2⟩

def receiverTryInto (receiver : RawUtxo × RawFullIncomingNote) :
    Except ScaleError (Config.Utxo F × Config.FullIncomingNote F) := do
  return (← RawUtxo.tryInto receiver.1, ← RawFullIncomingNote.tryInto receiver.2)

/-- `TryFrom<RawPullResponse> for ReadResponse<SyncData>`, whose error is `()`. -/
def RawPullResponse.tryInto (response : RawPullResponse) : Except Unit (ReadResponse F) := do
  return ⟨response.shouldContinue,
    ← (response.receivers.mapM receiverTryInto).mapError fun _ => (),
    ← (response.senders.mapM RawNulllifier.tryInto).mapError fun _ => ()⟩

/-- `ledger::Read::read` on the object that `pull` resolves to. -/
def read (pulled : Json) : Exec Empty (ReadResponse F) := do
  let response ← Exec.expect "Deserialization is not allowed to fail."
    (RawPullResponse.deserialize pulled)
  Exec.expectOk "Conversion is not allowed to fail." (RawPullResponse.tryInto response)

end Convert

section Json

theorem slice_first {n : ℕ} (a : Bytes n) (rest : List UInt8) :
    Api.slice (a.toList ++ rest) 0 n = a.toList :=
  List.take_left' a.length_eq

theorem slice_skip {n : ℕ} (i j : ℕ) (a : Bytes n) (rest : List UInt8) :
    Api.slice (a.toList ++ rest) (n + i) (n + j) = Api.slice rest i j := by
  obtain ⟨l, rfl⟩ := a
  unfold Api.slice
  rw [List.take_length_add_append, List.drop_length_add_append]

/-- The slices of 32 bytes are the components. -/
theorem slice_pair (c : Bytes 32 × Bytes 32) :
    Api.slice (c.1.toList ++ c.2.toList) 0 32 = c.1.toList ∧
      Api.slice (c.1.toList ++ c.2.toList) 32 64 = c.2.toList := by
  have hsecond : Api.slice c.2.toList 0 32 = c.2.toList := by
    have hfirst := slice_first c.2 []
    rwa [List.append_nil] at hfirst
  constructor
  · exact slice_first c.1 c.2.toList
  · exact (slice_skip 0 32 c.1 _).trans hsecond

theorem slice_flat (c : Bytes 32 × Bytes 32 × Bytes 32) :
    Api.slice (Api.flat c) 0 32 = c.1.toList ∧ Api.slice (Api.flat c) 32 64 = c.2.1.toList ∧
      Api.slice (Api.flat c) 64 96 = c.2.2.toList := by
  have hflat : Api.flat c = c.1.toList ++ (c.2.1.toList ++ c.2.2.toList) :=
    List.append_assoc _ _ _
  have ⟨hfirst, hsecond⟩ := slice_pair c.2
  rw [hflat]
  exact ⟨slice_first c.1 _, (slice_skip 0 32 c.1 _).trans hfirst,
    (slice_skip 32 64 c.1 _).trans hsecond⟩

theorem toPair?_ofBytes (c : Bytes 32 × Bytes 32) :
    (Json.arr [Json.ofBytes c.1.toList, Json.ofBytes c.2.toList]).toPair?
      (·.toBytes? 32) (·.toBytes? 32) = some c := by
  simp [Json.toPair?, Json.toBytes?_ofBytes]

theorem toTriple?_ofBytes (c : Bytes 32 × Bytes 32 × Bytes 32) :
    (Json.arr [Json.ofBytes c.1.toList, Json.ofBytes c.2.1.toList,
      Json.ofBytes c.2.2.toList]).toTriple? (·.toBytes? 32) = some c := by
  simp [Json.toTriple?, Json.toBytes?_ofBytes]

theorem RawOutgoingNote.deserialize_toJson (note : OutgoingNote) :
    RawOutgoingNote.deserialize (Api.outgoingNoteToJson note) =
      some ⟨note.ephemeralPublicKey, note.ciphertext⟩ := by
  have ⟨hfirst, hsecond⟩ := slice_pair note.ciphertext
  unfold Api.outgoingNoteToJson RawOutgoingNote.deserialize
  simp only [hfirst, hsecond]
  simp [Json.toStruct?, Json.toBytes?_ofBytes, toPair?_ofBytes]

theorem RawUtxo.deserialize_toJson (utxo : Utxo) :
    RawUtxo.deserialize (Api.utxoToJson utxo) =
      some ⟨utxo.isTransparent, ⟨utxo.publicAsset.id, utxo.publicAsset.value⟩,
        utxo.commitment⟩ := by
  unfold Api.utxoToJson RawUtxo.deserialize RawAsset.deserialize
  simp [Json.toStruct?, Json.toBytes?_ofBytes, Json.toBool?]

theorem RawIncomingNote.deserialize_toJson (note : IncomingNote) :
    RawIncomingNote.deserialize (Api.incomingNoteToJson note) =
      some ⟨note.ephemeralPublicKey, note.tag, note.ciphertext⟩ := by
  have ⟨hfirst, hsecond, hthird⟩ := slice_flat note.ciphertext
  unfold Api.incomingNoteToJson RawIncomingNote.deserialize
  simp only [hfirst, hsecond, hthird]
  simp [Json.toStruct?, Json.toBytes?_ofBytes, toTriple?_ofBytes]

theorem RawLightIncomingNote.deserialize_toJson (note : LightIncomingNote) :
    RawLightIncomingNote.deserialize (Api.lightIncomingNoteToJson note) =
      some ⟨note.ephemeralPublicKey, note.ciphertext⟩ := by
  have ⟨hfirst, hsecond, hthird⟩ := slice_flat note.ciphertext
  unfold Api.lightIncomingNoteToJson RawLightIncomingNote.deserialize
  simp only [hfirst, hsecond, hthird]
  simp [Json.toStruct?, Json.toBytes?_ofBytes, toTriple?_ofBytes]

theorem RawFullIncomingNote.deserialize_toJson (note : FullIncomingNote) :
    RawFullIncomingNote.deserialize (Api.fullIncomingNoteToJons note) =
      some ⟨note.addressPartition,
        ⟨note.incomingNote.ephemeralPublicKey, note.incomingNote.tag, note.incomingNote.ciphertext⟩,
        ⟨note.lightIncomingNote.ephemeralPublicKey, note.lightIncomingNote.ciphertext⟩⟩ := by
  unfold Api.fullIncomingNoteToJons RawFullIncomingNote.deserialize
  simp [Json.toStruct?, RawIncomingNote.deserialize_toJson,
    RawLightIncomingNote.deserialize_toJson]

end Json

section Path
variable {F : Fields}

/-- How the pallet stores a UTXO with its note. -/
def encodeReceiver (receiver : Config.Utxo F × Config.FullIncomingNote F) :
    Except ScaleError (Utxo × FullIncomingNote) := do
  return (← Utxo.tryFrom receiver.1, ← FullIncomingNote.tryFrom receiver.2)

/-- How the pallet stores a nullifier. -/
def encodeSender (nullifier : Config.Nullifier F) :
    Except ScaleError (Bytes 32 × OutgoingNote) := do
  return (← ZkNft.fpEncode nullifier.commitment, ← OutgoingNote.tryFrom nullifier.outgoingNote)

theorem encodeReceiver_eq_ok {a : Config.Utxo F × Config.FullIncomingNote F}
    {b : Utxo × FullIncomingNote} : encodeReceiver a = .ok b ↔
      Utxo.tryFrom a.1 = .ok b.1 ∧ FullIncomingNote.tryFrom a.2 = .ok b.2 := by
  obtain ⟨u, n⟩ := b
  simp [encodeReceiver, Exec.except_bind_eq_ok, pure, Except.pure]

theorem encodeSender_eq_ok {a : Config.Nullifier F} {b : Bytes 32 × OutgoingNote} :
    encodeSender a = .ok b ↔
      fpEncode a.commitment = .ok b.1 ∧ OutgoingNote.tryFrom a.outgoingNote = .ok b.2 := by
  obtain ⟨m, n⟩ := b
  simp [encodeSender, Exec.except_bind_eq_ok, pure, Except.pure]

/-- The wallet reads back the values that `enc` stored, through the JSON text of them. -/
def ReadsBack {α β γ : Type} (enc : α → Except ScaleError β) (js : β → Json)
    (de : Json → Option γ) (conv : γ → Except ScaleError α) : Prop :=
  ∀ a b, enc a = .ok b → ∃ raw, de (js b) = some raw ∧ conv raw = .ok a

theorem ReadsBack.list {α β γ : Type} {enc : α → Except ScaleError β} {js : β → Json}
    {de : Json → Option γ} {conv : γ → Except ScaleError α} (h : ReadsBack enc js de conv)
    {as : List α} {bs : List β} (hbs : as.mapM enc = .ok bs) :
    ∃ raws, (Json.arr (bs.map js)).toVec? de = some raws ∧ raws.mapM conv = .ok as := by
  have hrel := Exec.except_mapM_eq_ok.mp hbs
  clear hbs
  unfold Json.toVec?
  induction hrel with
  | nil => exact ⟨[], rfl, rfl⟩
  | @cons a b as bs hb _ ih =>
    obtain ⟨raw, hraw, ha⟩ := h a b hb
    obtain ⟨raws, hraws, has⟩ := ih
    refine ⟨raw :: raws, ?_, ?_⟩
    · simp only [List.map_cons, List.mapM_cons, hraw, hraws]
      rfl
    · rw [List.mapM_cons, ha, has]
      rfl

variable (hF : F.CanonicalElements)
include hF

theorem fpDecode_of_encode {x : F.Fp} {b : Bytes 32} (h : ZkNft.fpEncode x = .ok b) :
    fpDecode b.toList = .ok x :=
  (hF.fp.mutual FP_ENCODE "Fp Serialize" x b).mp h

theorem groupDecode_of_encode {x : F.Group} {b : Bytes 32} (h : ZkNft.groupEncode x = .ok b) :
    groupDecode b.toList = .ok x :=
  (hF.group.mutual GROUP_ENCODE "Group Serialize" x b).mp h

theorem utxo_readsBack : ReadsBack (Utxo.tryFrom (F := F)) Api.utxoToJson RawUtxo.deserialize
    RawUtxo.tryInto := by
  intro a b h
  obtain ⟨ht, hasset, hm⟩ := Utxo.tryFrom_eq_ok.mp h
  obtain ⟨hid, hvalue⟩ := Asset.tryFrom_eq_ok.mp hasset
  refine ⟨_, RawUtxo.deserialize_toJson b, ?_⟩
  have hvalue' : assetValueDecode b.publicAsset.value = a.publicAsset.value :=
    assetValueEncode_eq_iff.mp hvalue
  simp only [RawUtxo.tryInto, RawAsset.tryInto, fpDecode_of_encode hF hid,
    fpDecode_of_encode hF hm, hvalue', ← ht]
  rfl

theorem note_readsBack : ReadsBack (FullIncomingNote.tryFrom (F := F))
    Api.fullIncomingNoteToJons RawFullIncomingNote.deserialize RawFullIncomingNote.tryInto := by
  intro a b h
  obtain ⟨hpartition, hincoming, hlight⟩ := FullIncomingNote.tryFrom_eq_ok.mp h
  obtain ⟨he, ht, h₀, h₁, h₂⟩ := IncomingNote.tryFrom_eq_ok.mp hincoming
  have hread := (LightIncomingNote.mutual hF _ _).mp hlight
  obtain ⟨-, hflat⟩ := LightIncomingNote.tryInto_eq_ok.mp hread
  obtain ⟨hl, -, -⟩ := LightIncomingNote.tryFrom_eq_ok.mp hlight
  refine ⟨_, RawFullIncomingNote.deserialize_toJson b, ?_⟩
  simp only [RawFullIncomingNote.tryInto, groupDecode_of_encode hF he, fpDecode_of_encode hF ht,
    fpDecode_of_encode hF h₀, fpDecode_of_encode hF h₁, fpDecode_of_encode hF h₂,
    groupDecode_of_encode hF hl, hflat, ← hpartition]
  rfl

theorem outgoing_readsBack : ReadsBack (OutgoingNote.tryFrom (F := F)) Api.outgoingNoteToJson
    RawOutgoingNote.deserialize RawOutgoingNote.tryInto := by
  intro a b h
  obtain ⟨he, hflat⟩ := OutgoingNote.tryFrom_eq_ok.mp h
  refine ⟨_, RawOutgoingNote.deserialize_toJson b, ?_⟩
  simp only [RawOutgoingNote.tryInto, groupDecode_of_encode hF he, Bytes.split_eq_iff.mp hflat]
  rfl

theorem receiver_readsBack : ReadsBack (encodeReceiver (F := F))
    (fun b => .arr [Api.utxoToJson b.1, Api.fullIncomingNoteToJons b.2])
    (·.toPair? RawUtxo.deserialize RawFullIncomingNote.deserialize) receiverTryInto := by
  intro a b h
  obtain ⟨hu, hn⟩ := encodeReceiver_eq_ok.mp h
  obtain ⟨u, hu, hu'⟩ := utxo_readsBack hF a.1 b.1 hu
  obtain ⟨n, hn, hn'⟩ := note_readsBack hF a.2 b.2 hn
  refine ⟨(u, n), ?_, ?_⟩
  · simp [Json.toPair?, hu, hn]
  · simp only [receiverTryInto, hu', hn']
    rfl

theorem sender_readsBack : ReadsBack (encodeSender (F := F))
    (fun b => .arr [Json.ofBytes b.1.toList, Api.outgoingNoteToJson b.2])
    (·.toPair? (·.toBytes? 32) RawOutgoingNote.deserialize) RawNulllifier.tryInto := by
  intro a b h
  obtain ⟨hm, hn⟩ := encodeSender_eq_ok.mp h
  obtain ⟨n, hn, hn'⟩ := outgoing_readsBack hF a.outgoingNote b.2 hn
  refine ⟨(b.1, n), ?_, ?_⟩
  · simp [Json.toPair?, Json.toBytes?_ofBytes, hn]
  · simp only [RawNulllifier.tryInto, fpDecode_of_encode hF hm, hn']
    rfl

/-- A response over stored notes is read as the notes themselves. -/
theorem read_pullResult {receivers : List (Config.Utxo F × Config.FullIncomingNote F)}
    {senders : List (Config.Nullifier F)} {response : PullResponse}
    (hr : receivers.mapM encodeReceiver = .ok response.receivers)
    (hs : senders.mapM encodeSender = .ok response.senders) :
    read (Api.pullResult response) = .ok ⟨response.shouldContinue, receivers, senders⟩ := by
  obtain ⟨rs, hrs, hrs'⟩ := (receiver_readsBack hF).list hr
  obtain ⟨ss, hss, hss'⟩ := (sender_readsBack hF).list hs
  have hraw : RawPullResponse.deserialize (Api.pullResult response) =
      some ⟨response.shouldContinue, rs, ss⟩ := by
    unfold Api.pullResult RawPullResponse.deserialize
    simp [Json.toStruct?, Json.toBool?, hrs, hss]
  rw [read, hraw]
  simp only [Exec.expect, Exec.ok_bind, RawPullResponse.tryInto, hrs', hss']
  rfl

theorem encodeReceiver_returns (a : Config.Utxo F × Config.FullIncomingNote F) :
    ∃ b, encodeReceiver a = .ok b := by
  obtain ⟨u, hu⟩ := hF.fixedLength.utxo a.1
  obtain ⟨n, hn⟩ := hF.fixedLength.fullIncomingNote a.2
  exact ⟨(u, n), encodeReceiver_eq_ok.mpr ⟨hu, hn⟩⟩

theorem encodeSender_returns (a : Config.Nullifier F) : ∃ b, encodeSender a = .ok b := by
  obtain ⟨m, hm⟩ := hF.fixedLength.fpEncode a.commitment
  obtain ⟨n, hn⟩ := hF.fixedLength.outgoingNote a.outgoingNote
  exact ⟨(m, n), encodeSender_eq_ok.mpr ⟨hm, hn⟩⟩

/-- Notes and nullifiers reach the wallet through the pallet's types and the JSON text as they
were, in order, with the flag of the response. -/
theorem notePath_lossless (receivers : List (Config.Utxo F × Config.FullIncomingNote F))
    (senders : List (Config.Nullifier F)) :
    ∃ rs ss, receivers.mapM encodeReceiver = .ok rs ∧ senders.mapM encodeSender = .ok ss ∧
      ∀ shouldContinue total, read (Api.pullResult ⟨shouldContinue, rs, ss, total⟩) =
        .ok ⟨shouldContinue, receivers, senders⟩ := by
  obtain ⟨rs, hrs⟩ := Exec.except_mapM_total (encodeReceiver_returns hF) receivers
  obtain ⟨ss, hss⟩ := Exec.except_mapM_total (encodeSender_returns hF) senders
  refine ⟨rs, ss, hrs, hss, ?_⟩
  intro shouldContinue total
  let response : PullResponse := ⟨shouldContinue, rs, ss, total⟩
  have hr : receivers.mapM encodeReceiver = .ok response.receivers := hrs
  exact read_pullResult hF hr hss

end Path

section Witness
open Sample

theorem sample_elements : Sample.fields.CanonicalElements :=
  ⟨codec_canonical 32, codec_canonical 32⟩

/-- A spent note of the sample types. -/
def spent : Config.Nullifier Sample.fields :=
  ⟨field 7, ⟨field 8, ⟨List.replicate 64 9, by simp⟩⟩⟩

theorem notePath_lossless_sample :
    ∃ rs ss, pairs.mapM (encodeReceiver (F := Sample.fields)) = .ok rs ∧
      [spent].mapM encodeSender = .ok ss ∧
      ∀ shouldContinue total, read (Api.pullResult ⟨shouldContinue, rs, ss, total⟩) =
        .ok ⟨shouldContinue, pairs, [spent]⟩ :=
  notePath_lossless sample_elements pairs [spent]

end Witness

end Sdk
end ZkNft
