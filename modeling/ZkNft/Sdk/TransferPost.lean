import ZkNft.Lib.Script
import ZkNft.Sdk.Wallet

/-! The object that the SDK makes of the JSON of a wallet's post, for the runtime to read. -/

namespace ZkNft
namespace Sdk

section Serialize
variable {F : Fields}

/-- A field or group element, as the array of its bytes. -/
def elementToJson {α : Type} (k : Codec α) (x : α) : Json := Json.ofBytes (k.toVec x)

def Asset.serialize (asset : Config.Asset F) : Json :=
  .obj [("id", elementToJson F.fp asset.id), ("value", Json.number asset.value.toNat)]

def Utxo.serialize (utxo : Config.Utxo F) : Json :=
  .obj [("is_transparent", .bool utxo.isTransparent),
    ("public_asset", Asset.serialize utxo.publicAsset),
    ("commitment", elementToJson F.fp utxo.commitment)]

def AuthorizationSignature.serialize (signature : Config.AuthorizationSignature F) : Json :=
  .obj [("authorization_key", elementToJson F.group signature.authorizationKey),
    ("signature", .obj [("scalar", elementToJson F.scalar signature.scalar),
      ("nonce_point", elementToJson F.group signature.noncePoint)])]

variable (header : Json)

/-- A note is its header and a ciphertext with an ephemeral key. -/
def noteToJson (ephemeralPublicKey : F.Group) (ciphertext : Json) : Json :=
  .obj [("header", header),
    ("ciphertext", .obj [("ephemeral_public_key", elementToJson F.group ephemeralPublicKey),
      ("ciphertext", ciphertext)])]

def IncomingNote.serialize (note : Config.IncomingNote F) : Json :=
  noteToJson header note.ephemeralPublicKey (.obj [("tag", elementToJson F.fp note.tag),
    ("message", .arr [.arr [elementToJson F.fp note.message.1,
      elementToJson F.fp note.message.2.1, elementToJson F.fp note.message.2.2]])])

def LightIncomingNote.serialize (note : Config.LightIncomingNote F) : Json :=
  noteToJson header note.ephemeralPublicKey (Json.ofBytes note.ciphertext.toList)

def OutgoingNote.serialize (note : Config.OutgoingNote F) : Json :=
  noteToJson header note.ephemeralPublicKey (Json.ofBytes note.ciphertext.toList)

def FullIncomingNote.serialize (note : Config.FullIncomingNote F) : Json :=
  .obj [("address_partition", .num note.addressPartition.toNat),
    ("incoming_note", IncomingNote.serialize header note.incomingNote),
    ("light_incoming_note", LightIncomingNote.serialize header note.lightIncomingNote)]

def SenderPost.serialize (post : Config.SenderPost F) : Json :=
  .obj [("utxo_accumulator_output", elementToJson F.fp post.utxoAccumulatorOutput),
    ("nullifier", .obj [
      ("nullifier", .obj [("commitment", elementToJson F.fp post.nullifier.commitment)]),
      ("outgoing_note", OutgoingNote.serialize header post.nullifier.outgoingNote)])]

def ReceiverPost.serialize (post : Config.ReceiverPost F) : Json :=
  .obj [("utxo", Utxo.serialize post.utxo),
    ("note", FullIncomingNote.serialize header post.note)]

/-- An absent value is `null`. -/
def optionToJson {α : Type} (f : α → Json) : Option α → Json
  | none => .null
  | some a => f a

/-- The members of a post, which `transfer_post` keeps. -/
def transferPostMembers (authorizationSignature assetId sources senderPosts receiverPosts sinks
    proof : Json) : List (String × Json) :=
  [("authorization_signature", authorizationSignature), ("asset_id", assetId),
    ("sources", sources), ("sender_posts", senderPosts), ("receiver_posts", receiverPosts),
    ("sinks", sinks), ("proof", proof)]

/-- The wallet crate's `TransferPost`, whose sources and sinks are little-endian bytes. The proof
is written without the header of its encoding. -/
def TransferPost.serialize (post : Config.TransferPost F) : Json :=
  let assetValue := fun v : AssetValue => Json.ofBytes (Bytes.toLE 16 v.toNat)
  .obj (transferPostMembers
    (optionToJson AuthorizationSignature.serialize post.authorizationSignature)
    (optionToJson (elementToJson F.fp) post.body.assetId)
    (.arr (post.body.sources.map assetValue))
    (.arr (post.body.senderPosts.map (SenderPost.serialize header)))
    (.arr (post.body.receiverPosts.map (ReceiverPost.serialize header)))
    (.arr (post.body.sinks.map assetValue))
    (Json.ofBytes ((F.proof.toVec post.body.proof).drop 8)))

end Serialize

section Reshape
open Json

/-- The signature as the pair of its scalar and its point, unless there is none. -/
def authorizationSignature (json : Json) : Except Thrown Json := do
  match ← json.get ["authorization_signature"] with
  | none | some .null => return json
  | some _ =>
      let scala ← json.get ["authorization_signature", "signature", "scalar"]
      let nonce ← json.get ["authorization_signature", "signature", "nonce_point"]
      json.update (assign "signature" (some (.arr [scala.getD .null, nonce.getD .null])))
        ["authorization_signature"]

-- `new BN(value).toArray('le', 16)` of the library for big numbers
variable (bn : Option Json → Except Thrown (List UInt8))

def receiverPost (x : Json) : Except Thrown Json := do
  let arr1 ← flatten (← x.get ["note", "incoming_note", "ciphertext", "ciphertext", "message"])
  let tag ← x.get ["note", "incoming_note", "ciphertext", "ciphertext", "tag"]
  let pk ← x.get ["note", "incoming_note", "ciphertext", "ephemeral_public_key"]
  let x ← x.update (assign "tag" tag) ["note", "incoming_note"]
  let x ← x.update (assign "ephemeral_public_key" pk) ["note", "incoming_note"]
  let x ← x.update (assign "ciphertext" (some arr1)) ["note", "incoming_note"]
  let x ← x.update (delete "header") ["note", "incoming_note"]
  let lightPk ← x.get ["note", "light_incoming_note", "ciphertext", "ephemeral_public_key"]
  let lightCipher ← x.get ["note", "light_incoming_note", "ciphertext", "ciphertext"]
  let lightCiper0 ← slice 0 32 lightCipher
  let lightCiper1 ← slice 32 64 lightCipher
  let lightCiper2 ← slice 64 96 lightCipher
  let x ← x.update (assign "ephemeral_public_key" lightPk) ["note", "light_incoming_note"]
  let x ← x.update (assign "ciphertext" (some (.arr [lightCiper0, lightCiper1, lightCiper2])))
    ["note", "light_incoming_note"]
  let x ← x.update (delete "header") ["note", "light_incoming_note"]
  -- the asset value as `[u8; 16]`
  let value ← bn (← x.get ["utxo", "public_asset", "value"])
  let x ← x.update (assign "value" (some (ofBytes value))) ["utxo", "public_asset"]
  let x ← x.update (assign "full_incoming_note" (← x.get ["note"])) []
  x.update (delete "note") []

def senderPost (x : Json) : Except Thrown Json := do
  let pk ← x.get ["nullifier", "outgoing_note", "ciphertext", "ephemeral_public_key"]
  let cipher ← x.get ["nullifier", "outgoing_note", "ciphertext", "ciphertext"]
  let ciper0 ← slice 0 32 cipher
  let ciper1 ← slice 32 64 cipher
  let outgoing ← (obj [("ciphertext", .arr [ciper0, ciper1])]).update
    (assign "ephemeral_public_key" pk) []
  let x ← x.update (assign "outgoing_note" (some outgoing)) []
  let nullifier ← x.get ["nullifier", "nullifier", "commitment"]
  let x ← x.update (assign "nullifier_commitment" nullifier) []
  x.update (delete "nullifier") []

/-- `transfer_post`, of a post that is its own JSON copy. -/
def transferPost (post : Json) : Except Thrown Json := do
  let json ← authorizationSignature post
  let json ← json.update (each (receiverPost bn)) ["receiver_posts"]
  json.update (each senderPost) ["sender_posts"]

end Reshape

/-! The runtime's type, read member by member. -/

section Deserialize

def Asset.deserialize (v : Json) : Option Asset := do
  let [id, value] ← v.toClosed? ["id", "value"] | none
  return ⟨← id.toBytes? 32, ← value.toBytes? 16⟩

def Utxo.deserialize (v : Json) : Option Utxo := do
  let [isTransparent, publicAsset, commitment] ←
    v.toClosed? ["is_transparent", "public_asset", "commitment"] | none
  return ⟨← isTransparent.toBool?, ← Asset.deserialize publicAsset, ← commitment.toBytes? 32⟩

def IncomingNote.deserialize (v : Json) : Option IncomingNote := do
  let [ephemeralPublicKey, tag, ciphertext] ←
    v.toClosed? ["ephemeral_public_key", "tag", "ciphertext"] | none
  return ⟨← ephemeralPublicKey.toBytes? 32, ← tag.toBytes? 32,
    ← ciphertext.toTriple? (·.toBytes? 32)⟩

def LightIncomingNote.deserialize (v : Json) : Option LightIncomingNote := do
  let [ephemeralPublicKey, ciphertext] ←
    v.toClosed? ["ephemeral_public_key", "ciphertext"] | none
  return ⟨← ephemeralPublicKey.toBytes? 32, ← ciphertext.toTriple? (·.toBytes? 32)⟩

def FullIncomingNote.deserialize (v : Json) : Option FullIncomingNote := do
  let [addressPartition, incomingNote, lightIncomingNote] ←
    v.toClosed? ["address_partition", "incoming_note", "light_incoming_note"] | none
  return ⟨← addressPartition.toU8?, ← IncomingNote.deserialize incomingNote,
    ← LightIncomingNote.deserialize lightIncomingNote⟩

def OutgoingNote.deserialize (v : Json) : Option OutgoingNote := do
  let [ephemeralPublicKey, ciphertext] ←
    v.toClosed? ["ephemeral_public_key", "ciphertext"] | none
  return ⟨← ephemeralPublicKey.toBytes? 32,
    ← ciphertext.toPair? (·.toBytes? 32) (·.toBytes? 32)⟩

def SenderPost.deserialize (v : Json) : Option SenderPost := do
  let [utxoAccumulatorOutput, nullifierCommitment, outgoingNote] ←
    v.toClosed? ["utxo_accumulator_output", "nullifier_commitment", "outgoing_note"] | none
  return ⟨← utxoAccumulatorOutput.toBytes? 32, ← nullifierCommitment.toBytes? 32,
    ← OutgoingNote.deserialize outgoingNote⟩

def ReceiverPost.deserialize (v : Json) : Option ReceiverPost := do
  let [utxo, fullIncomingNote] ← v.toClosed? ["utxo", "full_incoming_note"] | none
  return ⟨← Utxo.deserialize utxo, ← FullIncomingNote.deserialize fullIncomingNote⟩

def AuthorizationSignature.deserialize (v : Json) : Option AuthorizationSignature := do
  let [authorizationKey, signature] ← v.toClosed? ["authorization_key", "signature"] | none
  return ⟨← authorizationKey.toBytes? 32, ← signature.toPair? (·.toBytes? 32) (·.toBytes? 32)⟩

def TransferPost.deserialize (v : Json) : Option TransferPost := do
  let [authorizationSignature, assetId, sources, senderPosts, receiverPosts, sinks, proof] ←
    v.toClosed? ["authorization_signature", "asset_id", "sources", "sender_posts",
      "receiver_posts", "sinks", "proof"] | none
  return ⟨← authorizationSignature.toOption? AuthorizationSignature.deserialize,
    ← assetId.toOption? (·.toBytes? 32), ← sources.toVec? (·.toBytes? 16),
    ← senderPosts.toVec? SenderPost.deserialize, ← receiverPosts.toVec? ReceiverPost.deserialize,
    ← sinks.toVec? (·.toBytes? 16), ← proof.toBytes? 128⟩

end Deserialize

/-! What `transfer_post` makes of a post, in terms of the pallet's conversion of it. -/

section Objects

def IncomingNote.object (note : IncomingNote) : Json :=
  .obj [("ciphertext", .arr [Json.ofBytes note.ciphertext.1.toList,
      Json.ofBytes note.ciphertext.2.1.toList, Json.ofBytes note.ciphertext.2.2.toList]),
    ("tag", Json.ofBytes note.tag.toList),
    ("ephemeral_public_key", Json.ofBytes note.ephemeralPublicKey.toList)]

def LightIncomingNote.object (note : LightIncomingNote) : Json :=
  .obj [("ciphertext", .arr [Json.ofBytes note.ciphertext.1.toList,
      Json.ofBytes note.ciphertext.2.1.toList, Json.ofBytes note.ciphertext.2.2.toList]),
    ("ephemeral_public_key", Json.ofBytes note.ephemeralPublicKey.toList)]

def OutgoingNote.object (note : OutgoingNote) : Json :=
  .obj [("ciphertext", .arr [Json.ofBytes note.ciphertext.1.toList,
      Json.ofBytes note.ciphertext.2.toList]),
    ("ephemeral_public_key", Json.ofBytes note.ephemeralPublicKey.toList)]

def FullIncomingNote.object (note : FullIncomingNote) : Json :=
  .obj [("address_partition", .num note.addressPartition.toNat),
    ("incoming_note", IncomingNote.object note.incomingNote),
    ("light_incoming_note", LightIncomingNote.object note.lightIncomingNote)]

def Utxo.object (utxo : Utxo) : Json :=
  .obj [("is_transparent", .bool utxo.isTransparent),
    ("public_asset", .obj [("id", Json.ofBytes utxo.publicAsset.id.toList),
      ("value", Json.ofBytes utxo.publicAsset.value.toList)]),
    ("commitment", Json.ofBytes utxo.commitment.toList)]

def ReceiverPost.object (post : ReceiverPost) : Json :=
  .obj [("utxo", Utxo.object post.utxo),
    ("full_incoming_note", FullIncomingNote.object post.fullIncomingNote)]

def SenderPost.object (post : SenderPost) : Json :=
  .obj [("utxo_accumulator_output", Json.ofBytes post.utxoAccumulatorOutput.toList),
    ("outgoing_note", OutgoingNote.object post.outgoingNote),
    ("nullifier_commitment", Json.ofBytes post.nullifierCommitment.toList)]

def AuthorizationSignature.object (signature : AuthorizationSignature) : Json :=
  .obj [("authorization_key", Json.ofBytes signature.authorizationKey.toList),
    ("signature", .arr [Json.ofBytes signature.signature.1.toList,
      Json.ofBytes signature.signature.2.toList])]

def TransferPost.object (post : TransferPost) : Json :=
  .obj (transferPostMembers
    (optionToJson AuthorizationSignature.object post.authorizationSignature)
    (optionToJson (fun id => Json.ofBytes id.toList) post.assetId)
    (.arr (post.sources.map fun v => Json.ofBytes v.toList))
    (.arr (post.senderPosts.map SenderPost.object))
    (.arr (post.receiverPosts.map ReceiverPost.object))
    (.arr (post.sinks.map fun v => Json.ofBytes v.toList))
    (Json.ofBytes post.proof.toList))

@[simp] theorem IncomingNote.deserialize_object (note : IncomingNote) :
    IncomingNote.deserialize (IncomingNote.object note) = some note := by
  simp [IncomingNote.deserialize, IncomingNote.object, Json.toClosed?, Json.toStruct?,
    Json.toBytes?_ofBytes, toTriple?_ofBytes]

@[simp] theorem LightIncomingNote.deserialize_object (note : LightIncomingNote) :
    LightIncomingNote.deserialize (LightIncomingNote.object note) = some note := by
  simp [LightIncomingNote.deserialize, LightIncomingNote.object, Json.toClosed?, Json.toStruct?,
    Json.toBytes?_ofBytes, toTriple?_ofBytes]

@[simp] theorem OutgoingNote.deserialize_object (note : OutgoingNote) :
    OutgoingNote.deserialize (OutgoingNote.object note) = some note := by
  simp [OutgoingNote.deserialize, OutgoingNote.object, Json.toClosed?, Json.toStruct?,
    Json.toBytes?_ofBytes, toPair?_ofBytes]

@[simp] theorem FullIncomingNote.deserialize_object (note : FullIncomingNote) :
    FullIncomingNote.deserialize (FullIncomingNote.object note) = some note := by
  simp [FullIncomingNote.deserialize, FullIncomingNote.object, Json.toClosed?, Json.toStruct?]

@[simp] theorem Utxo.deserialize_object (utxo : Utxo) :
    Utxo.deserialize (Utxo.object utxo) = some utxo := by
  simp [Utxo.deserialize, Utxo.object, Asset.deserialize, Json.toClosed?, Json.toStruct?,
    Json.toBytes?_ofBytes, Json.toBool?]

@[simp] theorem ReceiverPost.deserialize_object (post : ReceiverPost) :
    ReceiverPost.deserialize (ReceiverPost.object post) = some post := by
  simp [ReceiverPost.deserialize, ReceiverPost.object, Json.toClosed?, Json.toStruct?]

@[simp] theorem SenderPost.deserialize_object (post : SenderPost) :
    SenderPost.deserialize (SenderPost.object post) = some post := by
  simp [SenderPost.deserialize, SenderPost.object, Json.toClosed?, Json.toStruct?,
    Json.toBytes?_ofBytes]

@[simp] theorem AuthorizationSignature.deserialize_object (signature : AuthorizationSignature) :
    AuthorizationSignature.deserialize (AuthorizationSignature.object signature) =
      some signature := by
  simp [AuthorizationSignature.deserialize, AuthorizationSignature.object, Json.toClosed?,
    Json.toStruct?, Json.toBytes?_ofBytes, toPair?_ofBytes]

theorem toOption?_optionToJson {α : Type} {f : Json → Option α} {g : α → Json}
    (h : ∀ a, f (g a) = some a) (hnull : ∀ a, g a ≠ .null) (o : Option α) :
    (optionToJson g o).toOption? f = some o := by
  cases o with
  | none => rfl
  | some a =>
    have hnone := hnull a
    have hread := h a
    unfold optionToJson
    simp only
    cases hv : g a with
    | null => exact absurd hv hnone
    | _ => rw [Json.toOption?, ← hv, hread]; all_goals simp

/-- The object of a post is read as the post. -/
theorem TransferPost.deserialize_object (post : TransferPost) :
    TransferPost.deserialize (TransferPost.object post) = some post := by
  have hsignature := toOption?_optionToJson AuthorizationSignature.deserialize_object
    (fun _ => by simp [AuthorizationSignature.object]) post.authorizationSignature
  have hid := toOption?_optionToJson (fun b : Bytes 32 => Json.toBytes?_ofBytes b)
    (fun _ => by simp [Json.ofBytes]) post.assetId
  have hvalues := Json.toVec?_arr fun b : Bytes 16 => Json.toBytes?_ofBytes b
  have hsenders := Json.toVec?_arr SenderPost.deserialize_object post.senderPosts
  have hreceivers := Json.toVec?_arr ReceiverPost.deserialize_object post.receiverPosts
  simp [TransferPost.deserialize, TransferPost.object, transferPostMembers, Json.toClosed?,
    Json.toStruct?, Json.toBytes?_ofBytes, hsignature, hid, hvalues, hsenders, hreceivers]

end Objects

section Run
variable {F : Fields} {header : Json} {bn : Option Json → Except Thrown (List UInt8)}

theorem elementToJson_encode {α : Type} {k : Codec α} {n : ℕ} {msg : String} {x : α} {b : Bytes n}
    (h : encodeArray k n msg x = .ok b) : elementToJson k x = Json.ofBytes b.toList := by
  rw [elementToJson, encodeArray_eq_ok.mp h]

theorem slice_ofBytes (i j : ℕ) (l : List UInt8) :
    Json.slice i j (some (Json.ofBytes l)) = pure (Json.ofBytes (Api.slice l i j)) := by
  simp [Json.slice, Json.ofBytes, Api.slice, List.map_drop, List.map_take]

theorem slice_light {a : Config.LightIncomingNote F} {b : LightIncomingNote}
    (h : LightIncomingNote.tryFrom a = .ok b) :
    Api.slice a.ciphertext.toList 0 32 = b.ciphertext.1.toList ∧
      Api.slice a.ciphertext.toList 32 64 = b.ciphertext.2.1.toList ∧
      Api.slice a.ciphertext.toList 64 96 = b.ciphertext.2.2.toList := by
  obtain ⟨-, hfirst, hrest⟩ := LightIncomingNote.tryFrom_eq_ok.mp h
  have hflat : a.ciphertext.toList = Api.flat b.ciphertext := by
    have hsplit : Bytes.split 32 (k := 64) a.ciphertext =
        (b.ciphertext.1, b.ciphertext.2.1.append b.ciphertext.2.2) :=
      Prod.ext hfirst (Bytes.split_eq_iff.mp hrest).symm
    rw [← Bytes.split_eq_iff.mp hsplit, Api.flat, List.append_assoc]
    rfl
  rw [hflat]
  exact slice_flat b.ciphertext

theorem slice_outgoing {a : Config.OutgoingNote F} {b : OutgoingNote}
    (h : OutgoingNote.tryFrom a = .ok b) :
    Api.slice a.ciphertext.toList 0 32 = b.ciphertext.1.toList ∧
      Api.slice a.ciphertext.toList 32 64 = b.ciphertext.2.toList := by
  obtain ⟨-, hsplit⟩ := OutgoingNote.tryFrom_eq_ok.mp h
  rw [← Bytes.split_eq_iff.mp hsplit]
  exact slice_pair b.ciphertext

theorem senderPost_serialize {a : Config.SenderPost F} {b : SenderPost}
    (h : SenderPost.tryFrom a = .ok b) :
    senderPost (SenderPost.serialize header a) = .ok (SenderPost.object b) := by
  obtain ⟨houtput, hcommitment, hnote⟩ := SenderPost.tryFrom_eq_ok.mp h
  obtain ⟨hkey, -⟩ := OutgoingNote.tryFrom_eq_ok.mp hnote
  have ⟨hfirst, hsecond⟩ := slice_outgoing hnote
  simp [senderPost, SenderPost.serialize, OutgoingNote.serialize, noteToJson, Json.get,
    Json.property, Json.update, Json.assign, Json.delete, Json.put, List.foldlM, slice_ofBytes,
    hfirst, hsecond, elementToJson_encode houtput, elementToJson_encode hcommitment,
    elementToJson_encode hkey, SenderPost.object, OutgoingNote.object]
  rfl

/-- The asset value is the one member that can make the conversion fail. -/
theorem receiverPost_serialize {a : Config.ReceiverPost F} {b : ReceiverPost}
    (h : ReceiverPost.tryFrom a = .ok b) :
    receiverPost bn (ReceiverPost.serialize header a) =
      (bn (some (Json.number a.utxo.publicAsset.value.toNat))).map fun value =>
        .obj [("utxo", .obj [("is_transparent", .bool b.utxo.isTransparent),
            ("public_asset", .obj [("id", Json.ofBytes b.utxo.publicAsset.id.toList),
              ("value", Json.ofBytes value)]),
            ("commitment", Json.ofBytes b.utxo.commitment.toList)]),
          ("full_incoming_note", FullIncomingNote.object b.fullIncomingNote)] := by
  obtain ⟨hutxo, hnote⟩ := ReceiverPost.tryFrom_eq_ok.mp h
  obtain ⟨htransparent, hasset, hcommitment⟩ := Utxo.tryFrom_eq_ok.mp hutxo
  obtain ⟨hid, -⟩ := Asset.tryFrom_eq_ok.mp hasset
  obtain ⟨hpartition, hincoming, hlight⟩ := FullIncomingNote.tryFrom_eq_ok.mp hnote
  obtain ⟨hkey, htag, hm₀, hm₁, hm₂⟩ := IncomingNote.tryFrom_eq_ok.mp hincoming
  obtain ⟨hlightKey, -⟩ := LightIncomingNote.tryFrom_eq_ok.mp hlight
  have ⟨hfirst, hsecond, hthird⟩ := slice_light hlight
  simp [receiverPost, ReceiverPost.serialize, Utxo.serialize, Asset.serialize,
    FullIncomingNote.serialize, IncomingNote.serialize, LightIncomingNote.serialize, noteToJson,
    Json.get, Json.property, Json.update, Json.assign, Json.delete, Json.put, Json.flatten,
    List.foldlM, slice_ofBytes, hfirst, hsecond, hthird, htransparent, hpartition,
    elementToJson_encode hid, elementToJson_encode hcommitment, elementToJson_encode hkey,
    elementToJson_encode htag, elementToJson_encode hm₀, elementToJson_encode hm₁,
    elementToJson_encode hm₂, elementToJson_encode hlightKey, FullIncomingNote.object,
    IncomingNote.object, LightIncomingNote.object]
  rfl

theorem authorizationSignature_serialize {a : Config.TransferPost F} {b : TransferPost}
    (h : TransferPost.tryFrom a = .ok b) (members : List (String × Json)) :
    authorizationSignature (.obj (("authorization_signature",
        optionToJson AuthorizationSignature.serialize a.authorizationSignature) :: members)) =
      .ok (.obj (("authorization_signature",
        optionToJson AuthorizationSignature.object b.authorizationSignature) :: members)) := by
  obtain ⟨hsignature, -⟩ := TransferPost.tryFrom_eq_ok.mp h
  cases ha : a.authorizationSignature with
  | none =>
    rw [ha] at hsignature
    have hb : b.authorizationSignature = none := Exec.except_mapM_none.mp hsignature
    simp [hb, optionToJson, authorizationSignature, Json.get, Json.property, List.foldlM]
    rfl
  | some signature =>
    rw [ha] at hsignature
    obtain ⟨raw, hraw, hsome⟩ := Exec.except_mapM_some.mp hsignature
    obtain ⟨hkey, hscalar, hnonce⟩ := AuthorizationSignature.tryFrom_eq_ok.mp hraw
    simp [hsome, optionToJson, authorizationSignature, AuthorizationSignature.serialize,
      AuthorizationSignature.object, Json.get, Json.property, Json.update, Json.assign, Json.put,
      List.foldlM, elementToJson_encode hkey, elementToJson_encode hscalar,
      elementToJson_encode hnonce]
    rfl

/-- Arrays of posts are changed post by post. -/
theorem mapM_serialize {α β : Type} {tryFrom : α → Except ScaleError β} {js : α → Json}
    {f : Json → Except Thrown Json} {object : β → Json} {P : α → Prop}
    (hf : ∀ a b, tryFrom a = .ok b → ∀ x, f (js a) = .ok x ↔ P a ∧ x = object b)
    {as : List α} {bs : List β} (h : as.mapM tryFrom = .ok bs) (xs : List Json) :
    (as.map js).mapM f = .ok xs ↔ (∀ a ∈ as, P a) ∧ xs = bs.map object := by
  have hrel := Exec.except_mapM_eq_ok.mp h
  clear h
  rw [Exec.except_mapM_eq_ok]
  induction hrel generalizing xs with
  | nil => simp
  | @cons a b as bs hab _ ih =>
    rw [List.map_cons, List.forall₂_cons_left_iff, List.map_cons, List.forall_mem_cons]
    constructor
    · intro h
      obtain ⟨y, ys, hy, hys, rfl⟩ := h
      obtain ⟨hP, rfl⟩ := (hf a b hab y).mp hy
      obtain ⟨hall, rfl⟩ := (ih ys).mp hys
      exact ⟨⟨hP, hall⟩, rfl⟩
    · intro h
      obtain ⟨⟨hP, hall⟩, rfl⟩ := h
      exact ⟨_, _, (hf a b hab _).mpr ⟨hP, rfl⟩, (ih _).mpr ⟨hall, rfl⟩, rfl⟩

section Members
variable {f : Json → Except Thrown Json} {s i v w p : Json} {senders receivers : List Json}

theorem update_receivers (x : Json) :
    (Json.obj (transferPostMembers s i v (.arr senders) (.arr receivers) w p)).update
        (Json.each f) ["receiver_posts"] = .ok x ↔
      ∃ rs, receivers.mapM f = .ok rs ∧
        Json.obj (transferPostMembers s i v (.arr senders) (.arr rs) w p) = x :=
  Json.update_each (by simp [transferPostMembers]) x

theorem update_senders (x : Json) :
    (Json.obj (transferPostMembers s i v (.arr senders) (.arr receivers) w p)).update
        (Json.each f) ["sender_posts"] = .ok x ↔
      ∃ ss, senders.mapM f = .ok ss ∧
        Json.obj (transferPostMembers s i v (.arr ss) (.arr receivers) w p) = x :=
  Json.update_each (by simp [transferPostMembers]) x

end Members

/-- What the SDK relies on in the library for big numbers: a number that is not a safe integer
fails its assertion. -/
structure BigNumber (bn : Option Json → Except Thrown (List UInt8)) : Prop where
  toArray : ∀ n < 2 ^ 53, bn (some (.num n)) = .ok (Bytes.toLE 16 n)
  assertion : ∀ n, 2 ^ 53 ≤ n → bn (some (.num n)) = .error ⟨⟩

/-- The public asset value is a safe integer. -/
def Representable (post : Config.ReceiverPost F) : Prop :=
  post.utxo.publicAsset.value.toNat < 2 ^ 53

variable (hbn : BigNumber bn)
include hbn

theorem receiverPost_eq_ok {a : Config.ReceiverPost F} {b : ReceiverPost}
    (h : ReceiverPost.tryFrom a = .ok b) (x : Json) :
    receiverPost bn (ReceiverPost.serialize header a) = .ok x ↔
      Representable a ∧ x = ReceiverPost.object b := by
  have hvalue : Bytes.toLE 16 a.utxo.publicAsset.value.toNat = b.utxo.publicAsset.value.toList := by
    obtain ⟨hutxo, -⟩ := ReceiverPost.tryFrom_eq_ok.mp h
    obtain ⟨-, hasset, -⟩ := Utxo.tryFrom_eq_ok.mp hutxo
    rw [← (Asset.tryFrom_eq_ok.mp hasset).2]
    rfl
  rw [receiverPost_serialize h, Json.number]
  by_cases hsafe : Representable a
  · have hrun := hbn.toArray _ hsafe
    rw [Double.round_of_lt hsafe, hrun, hvalue]
    simp [Except.map, hsafe, ReceiverPost.object, Utxo.object, eq_comm]
  · have hge := Double.le_round (not_lt.mp hsafe)
    rw [hbn.assertion _ hge]
    simp [Except.map, hsafe]

omit hbn in
theorem proofEncode_toList {proof : F.Proof} {b : Bytes 128} (h : proofEncode proof = .ok b) :
    b.toList = (F.proof.toVec proof).drop 8 := by
  by_cases hlen : 8 ≤ (F.proof.toVec proof).length
  · exact (proofEncode_eq_ok hlen).mp h
  · simp [proofEncode, not_le.mp hlen] at h

omit hbn in
theorem senderPosts_serialize (header : Json) {as : List (Config.SenderPost F)}
    {bs : List SenderPost} (h : as.mapM SenderPost.tryFrom = .ok bs) :
    (as.map (SenderPost.serialize header)).mapM senderPost = .ok (bs.map SenderPost.object) := by
  have hsender : ∀ (a : Config.SenderPost F) (b : SenderPost), SenderPost.tryFrom a = .ok b →
      ∀ x, senderPost (SenderPost.serialize header a) = .ok x ↔
        True ∧ x = SenderPost.object b := by
    intro a b hab x
    rw [senderPost_serialize hab]
    simp [eq_comm]
  exact (mapM_serialize hsender h _).mpr ⟨by simp, rfl⟩

theorem receiverPosts_serialize (header : Json) {as : List (Config.ReceiverPost F)}
    {bs : List ReceiverPost} (h : as.mapM ReceiverPost.tryFrom = .ok bs) (xs : List Json) :
    (as.map (ReceiverPost.serialize header)).mapM (receiverPost bn) = .ok xs ↔
      (∀ post ∈ as, Representable post) ∧ xs = bs.map ReceiverPost.object :=
  mapM_serialize (fun _ _ hab => receiverPost_eq_ok hbn hab) h xs

omit hbn in
theorem assetId_serialize {a : Option F.Fp} {b : Option (Bytes 32)}
    (h : a.mapM fpEncode = .ok b) :
    optionToJson (elementToJson F.fp) a = optionToJson (fun id => Json.ofBytes id.toList) b := by
  cases a with
  | none =>
    rw [Exec.except_mapM_none.mp h]
    rfl
  | some x =>
    obtain ⟨raw, hraw, hsome⟩ := Exec.except_mapM_some.mp h
    rw [hsome]
    exact elementToJson_encode hraw

theorem transferPost_eq_ok (header : Json) {a : Config.TransferPost F} {b : TransferPost}
    (h : TransferPost.tryFrom a = .ok b) (x : Json) :
    transferPost bn (TransferPost.serialize header a) = .ok x ↔
      (∀ post ∈ a.body.receiverPosts, Representable post) ∧ x = TransferPost.object b := by
  have hsignature := authorizationSignature_serialize h
  obtain ⟨-, hid, hsources, hsenders, hreceivers, hsinks, hproof⟩ := TransferPost.tryFrom_eq_ok.mp h
  have hreceivers' := receiverPosts_serialize hbn header hreceivers
  have hsenders' := senderPosts_serialize header hsenders
  have hauthorized : authorizationSignature (TransferPost.serialize header a) = .ok (.obj
      (transferPostMembers (optionToJson AuthorizationSignature.object b.authorizationSignature)
        _ _ _ _ _ _)) := hsignature _
  have hobject : TransferPost.object b = .obj (transferPostMembers
      (optionToJson AuthorizationSignature.object b.authorizationSignature)
      (optionToJson (elementToJson F.fp) a.body.assetId)
      (.arr (a.body.sources.map fun v => Json.ofBytes (Bytes.toLE 16 v.toNat)))
      (.arr (b.senderPosts.map SenderPost.object))
      (.arr (b.receiverPosts.map ReceiverPost.object))
      (.arr (a.body.sinks.map fun v => Json.ofBytes (Bytes.toLE 16 v.toNat)))
      (Json.ofBytes ((F.proof.toVec a.body.proof).drop 8))) := by
    rw [TransferPost.object, assetId_serialize hid, ← hsources, ← hsinks,
      proofEncode_toList hproof, List.map_map, List.map_map]
    rfl
  rw [transferPost, hauthorized, Exec.except_ok_bind, Exec.except_bind_eq_ok, hobject]
  constructor
  · intro hrun
    obtain ⟨y, hy, hx⟩ := hrun
    obtain ⟨xs, hxs, rfl⟩ := (update_receivers y).mp hy
    obtain ⟨ys, hys, rfl⟩ := (update_senders x).mp hx
    obtain ⟨hall, rfl⟩ := (hreceivers' xs).mp hxs
    rw [hsenders'] at hys
    cases hys
    exact ⟨hall, rfl⟩
  · intro hall
    obtain ⟨hall, rfl⟩ := hall
    have hxs := (hreceivers' _).mpr ⟨hall, rfl⟩
    exact ⟨_, (update_receivers _).mpr ⟨_, hxs, rfl⟩, (update_senders _).mpr ⟨_, hsenders', rfl⟩⟩

/-- The object that `transfer_post` returns is read as the pallet's own conversion of the post, if
and only if the public asset value of every receiver fits a JavaScript number. -/
theorem transferPost_denotes_iff (hF : F.Canonical) (header : Json)
    (post : Config.TransferPost F) :
    (∃ json denoted, transferPost bn (TransferPost.serialize header post) = .ok json ∧
      TransferPost.deserialize json = some denoted ∧ TransferPost.tryFrom post = .ok denoted) ↔
    ∀ receiver ∈ post.body.receiverPosts, Representable receiver := by
  constructor
  · intro h
    obtain ⟨json, denoted, hrun, -, hdenoted⟩ := h
    exact ((transferPost_eq_ok hbn header hdenoted json).mp hrun).1
  · intro hall
    obtain ⟨denoted, hdenoted⟩ := TransferPost.tryFrom_returns hF post
    have hrun := (transferPost_eq_ok hbn header hdenoted _).mpr ⟨hall, rfl⟩
    exact ⟨_, denoted, hrun, TransferPost.deserialize_object denoted, hdenoted⟩

end Run

section Witness

/-- The library for big numbers, on numbers and on `undefined`. -/
def Sample.bn : Option Json → Except Thrown (List UInt8)
  | none => .ok (Bytes.toLE 16 0)
  | some (.num n) => if n < 2 ^ 53 then .ok (Bytes.toLE 16 n) else .error ⟨⟩
  | some _ => .error ⟨⟩

theorem Sample.bn_bigNumber : BigNumber Sample.bn where
  toArray _ h := if_pos h
  assertion _ h := if_neg (not_lt.mpr h)

/-- A post that makes one transparent UTXO. -/
def Sample.mint (value : AssetValue) : Config.TransferPost headedFields :=
  let element : Bytes 32 := ZkNft.Sample.field 7
  let asset : Config.Asset headedFields := ⟨element, value⟩
  let incomingNote : Config.IncomingNote headedFields :=
    ⟨element, element, element, element, element⟩
  let lightIncomingNote : Config.LightIncomingNote headedFields := ⟨element, Bytes.zero 96⟩
  { authorizationSignature := none
    body :=
      { assetId := some element
        sources := [value]
        senderPosts := []
        receiverPosts := [⟨⟨true, asset, element⟩, ⟨3, incomingNote, lightIncomingNote⟩⟩]
        sinks := []
        proof := Bytes.zero 128 } }

theorem transferPost_denotes_mint : ∃ json denoted,
    transferPost Sample.bn (TransferPost.serialize .null (Sample.mint 1000)) = .ok json ∧
      TransferPost.deserialize json = some denoted ∧
      TransferPost.tryFrom (Sample.mint 1000) = .ok denoted :=
  (transferPost_denotes_iff Sample.bn_bigNumber headedFields_canonical .null (Sample.mint 1000)).mpr
    (by simp [Sample.mint, Representable])

/-- A value of `2 ^ 53` fits the runtime's type and fails the assertion of the library. -/
theorem transferPost_large : ¬∃ json denoted,
    transferPost Sample.bn (TransferPost.serialize .null (Sample.mint (2 ^ 53))) = .ok json ∧
      TransferPost.deserialize json = some denoted ∧
      TransferPost.tryFrom (Sample.mint (2 ^ 53)) = .ok denoted := by
  intro h
  obtain ⟨json, denoted, hrun, -, hdenoted⟩ := h
  have hsafe := ((transferPost_eq_ok Sample.bn_bigNumber .null hdenoted json).mp hrun).1
  have hlt : (2 ^ 53 : AssetValue).toNat < 2 ^ 53 := hsafe _ (List.mem_singleton.mpr rfl)
  exact absurd hlt (by decide)

end Witness

end Sdk
end ZkNft
