import ZkNft.Lib.Json
import ZkNft.MantaPay.Pull

/-! The JavaScript `Api` between the node and the wallet, which turns a pull response into JSON. -/

namespace ZkNft
namespace Api

/-- `slice` of a byte array. -/
def slice (bytes : List UInt8) (i j : ℕ) : List UInt8 := (bytes.take j).drop i

/-- Converts an `outgoing note` into a JSON object. -/
def outgoingNoteToJson (note : OutgoingNote) : Json :=
  let ciphertext := note.ciphertext.1.toList ++ note.ciphertext.2.toList
  let cipher0 := Json.ofBytes (slice ciphertext 0 32)
  let cipher1 := Json.ofBytes (slice ciphertext 32 64)
  .obj [("ephemeral_public_key", Json.ofBytes note.ephemeralPublicKey.toList),
    ("ciphertext", .arr [cipher0, cipher1])]

/-- `toU8a` of a ciphertext of three components. -/
def flat (ciphertext : Bytes 32 × Bytes 32 × Bytes 32) : List UInt8 :=
  ciphertext.1.toList ++ ciphertext.2.1.toList ++ ciphertext.2.2.toList

/-- Converts an `light incoming note` into a JSON object. -/
def lightIncomingNoteToJson (note : LightIncomingNote) : Json :=
  let ciphertext := flat note.ciphertext
  let cipher0 := Json.ofBytes (slice ciphertext 0 32)
  let cipher1 := Json.ofBytes (slice ciphertext 32 64)
  let cipher2 := Json.ofBytes (slice ciphertext 64 96)
  .obj [("ephemeral_public_key", Json.ofBytes note.ephemeralPublicKey.toList),
    ("ciphertext", .arr [cipher0, cipher1, cipher2])]

/-- Converts an `incoming note` into a JSON object. -/
def incomingNoteToJson (note : IncomingNote) : Json :=
  let ciphertext := flat note.ciphertext
  let cipher0 := Json.ofBytes (slice ciphertext 0 32)
  let cipher1 := Json.ofBytes (slice ciphertext 32 64)
  let cipher2 := Json.ofBytes (slice ciphertext 64 96)
  .obj [("ephemeral_public_key", Json.ofBytes note.ephemeralPublicKey.toList),
    ("tag", Json.ofBytes note.tag.toList),
    ("ciphertext", .arr [cipher0, cipher1, cipher2])]

/-- Converts an `full incoming note` into a JSON object. -/
def fullIncomingNoteToJons (note : FullIncomingNote) : Json :=
  .obj [("address_partition", .num note.addressPartition.toNat),
    ("incoming_note", incomingNoteToJson note.incomingNote),
    ("light_incoming_note", lightIncomingNoteToJson note.lightIncomingNote)]

/-- Converts an `utxo` into a JSON object. -/
def utxoToJson (utxo : Utxo) : Json :=
  .obj [("is_transparent", .bool utxo.isTransparent),
    ("public_asset", .obj [("id", Json.ofBytes utxo.publicAsset.id.toList),
      ("value", Json.ofBytes utxo.publicAsset.value.toList)]),
    ("commitment", Json.ofBytes utxo.commitment.toList)]

/-- The `pull_result` that `pull` builds. -/
def pullResult (result : PullResponse) : Json :=
  let receivers := result.receivers.map fun receiverRaw =>
    Json.arr [utxoToJson receiverRaw.1, fullIncomingNoteToJons receiverRaw.2]
  let senders := result.senders.map fun senderRaw =>
    Json.arr [Json.ofBytes senderRaw.1.toList, outgoingNoteToJson senderRaw.2]
  .obj [("should_continue", .bool result.shouldContinue), ("receivers", .arr receivers),
    ("senders", .arr senders)]

end Api
end ZkNft
