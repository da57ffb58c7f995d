import ZkNft.MantaPay.History
import ZkNft.Primitives.InMemory

/-! A runtime in memory that meets the assumptions, with unhashed items and a proof system that
answers what the first byte of the proof says. -/

namespace ZkNft
namespace Sample

def codec (n : ℕ) : Codec (Bytes n) := ⟨Bytes.toList, Bytes.ofList? n⟩

abbrev fields : Fields :=
  { Fp := Bytes 32
    Scalar := Bytes 32
    Group := Bytes 32
    Proof := Bytes 128
    fp := codec 32
    scalar := codec 32
    group := codec 32
    proof := codec 128 }

def firstByte {n : ℕ} (b : Bytes n) : UInt8 := b.toList.headD 0

/-- The next leaf of a tree of `2 ^ 19` leaves; the item stands for the digests. -/
def insert (leafDigest : Option (Bytes 32)) (path : Config.CurrentPath fields) (item : Bytes 32) :
    Option (Option (Bytes 32) × Config.CurrentPath fields × Bytes 32) :=
  let index := if leafDigest.isSome then path.leafIndex + 1 else 0
  if index < 2 ^ 19 then some (some item, { path with leafIndex := index }, item) else none

def selectShape : Bool → Bool → ℕ → ℕ → ℕ → ℕ → Option TransferShape
  | false, true, 1, 0, 1, 0 => some .toPrivate
  | true, false, 0, 2, 2, 0 => some .privateTransfer
  | true, true, 0, 2, 1, 1 => some .toPublic
  | _, _, _, _, _, _ => none

def crypto : Crypto :=
  { fields with
    Model := Unit
    ItemHash := Unit
    VerifyingContext := Unit
    MTParametersError := Empty
    UtxoItemHashError := Empty
    VerifyingContextError := Empty
    ProofSystemError := Unit
    utxoAccumulatorModel := some []
    utxoAccumulatorItemHash := some []
    verifyingContext := fun _ => some []
    decodeModel := fun _ => .ok ()
    decodeItemHash := fun _ => .ok ()
    decodeVerifyingContext := fun _ => .ok ()
    itemHash := fun _ utxo => utxo.commitment
    treeIndex := fun item => ⟨(firstByte item).toNat, UInt8.toNat_lt _⟩
    insert := fun _ => insert
    hasValidAuthorizationSignature := fun post =>
      post.authorizationSignature.isSome == !post.body.senderPosts.isEmpty
    nullifierRelated := fun m n => decide (m.commitment = n.commitment)
    utxoRelated := fun u v => decide (u.commitment = v.commitment)
    selectShape
    hasValidProof := fun _ _ body =>
      match firstByte body.proof with
      | 0 => .ok false
      | 255 => .error ()
      | _ => .ok true }

theorem insert_spec {d d' : Option (Bytes 32)} {p p' : Config.CurrentPath fields}
    {x r : Bytes 32} (h : insert d p x = some (d', p', r)) :
    d'.isSome ∧ p'.leafIndex = (if d.isSome then p.leafIndex + 1 else 0) ∧
      p'.leafIndex < 2 ^ 19 := by
  unfold insert at h
  simp only at h
  by_cases hlt : (if d.isSome then p.leafIndex + 1 else 0) < 2 ^ 19
  · rw [if_pos hlt] at h
    simp only [Option.some.injEq, Prod.mk.injEq] at h
    obtain ⟨rfl, rfl, -⟩ := h
    exact ⟨rfl, rfl, hlt⟩
  · rw [if_neg hlt] at h
    cases h

theorem crypto_lawful : crypto.Lawful where
  fp_length x := x.length_eq
  fp_decode x := Bytes.ofList?_toList x
  fp_zero := rfl
  group_length x := x.length_eq
  group_decode x := Bytes.ofList?_toList x
  model_loads := ⟨[], (), rfl, rfl⟩
  itemHash_loads := ⟨[], (), rfl, rfl⟩
  verifyingContext_loads _ := ⟨[], (), rfl, rfl⟩
  insert_index _ d p x d' p' r h := by
    have ⟨hd, hindex, _⟩ := insert_spec h
    exact ⟨hd, hindex⟩
  insert_capacity _ d p x d' p' r h := by
    have ⟨_, _, hlt⟩ := insert_spec h
    exact hlt.trans (by decide)
  authorization_iff p h := by
    have h' : p.authorizationSignature.isSome = !p.body.senderPosts.isEmpty := beq_iff_eq.mp h
    rw [h', ← List.isEmpty_eq_false_iff]
    simp
  nullifier_related m n h := decide_eq_true h
  utxo_related u := decide_eq_true rfl
  shape_toPrivate := rfl
  shape_privateTransfer := rfl
  shape_toPublic := rfl

/-- Accounts are numbers and the pallet has account `0`. -/
def runtime : Runtime :=
  { Holdings.frame ℕ 1 1 8 with
    crypto
    palletAccount := (0 : ℕ)
    stackDepth := 64 }

theorem runtime_lawful : runtime.Lawful where
  frame := Holdings.frame_lawful 1 8 (0 : ℕ)
  crypto := crypto_lawful
  stack := by decide

section Data

def signer (n : ℕ) : Signer runtime := ⟨(n + 1 : ℕ), Nat.succ_ne_zero n⟩

/-- The field element of a number. -/
def field (n : ℕ) : Bytes 32 := ⟨Bytes.toLE 32 n, Bytes.toLE_length 32 n⟩

def outgoingNote : OutgoingNote := ⟨Bytes.zero 32, Bytes.zero 32, Bytes.zero 32⟩

def incomingNote : FullIncomingNote :=
  ⟨0, ⟨Bytes.zero 32, Bytes.zero 32, Bytes.zero 32, Bytes.zero 32, Bytes.zero 32⟩,
    ⟨Bytes.zero 32, Bytes.zero 32, Bytes.zero 32, Bytes.zero 32⟩⟩

/-- A sender of value zero with the given nullifier. -/
def senderPost (nullifier : ℕ) : SenderPost := ⟨Bytes.zero 32, field nullifier, outgoingNote⟩

def receiverPost (commitment : ℕ) : ReceiverPost :=
  ⟨⟨false, ⟨Bytes.zero 32, Bytes.zero 16⟩, field commitment⟩, incomingNote⟩

def signature : AuthorizationSignature := ⟨Bytes.zero 32, Bytes.zero 32, Bytes.zero 32⟩

def proof (answer : UInt8) : Bytes 128 := ⟨List.replicate 128 answer, by simp⟩

def mint (asset : ℕ) (value : AssetValue) (utxo : ℕ) : TransferPost :=
  ⟨none, some (field asset), [assetValueEncode value], [], [receiverPost utxo], [], proof 1⟩

def redeem (asset : ℕ) (value : AssetValue) (nullifier utxo : ℕ) : TransferPost :=
  ⟨some signature, some (field asset), [], [senderPost nullifier, senderPost (nullifier + 1)],
    [receiverPost utxo], [assetValueEncode value], proof 1⟩

def reshape (nullifier utxo : ℕ) : TransferPost :=
  ⟨some signature, none, [], [senderPost nullifier, senderPost (nullifier + 1)],
    [receiverPost utxo, receiverPost (utxo + 1)], [], proof 1⟩

/-- Asset `8` is the native token, `9` an item and `10` a soul-bound item of account `1`. -/
def registry : StorageMap StandardAssetId (AssetStorageMetadata ℕ) :=
  ((StorageMap.empty.insert 8 (.fungible ⟨⟨[], [], 12, false⟩, 1, 1, true⟩)).insert 9
    (.nonFungible ⟨[], [], 1, 1, (1 : ℕ), Bytes.zero 32⟩)).insert 10
    (.sbt ⟨[], [], 1, 2, (1 : ℕ), Bytes.zero 32⟩)

/-- Every account holds a thousand units of each token, and account `1` every item. -/
def holdings : Holdings ℕ := ⟨fun _ _ => 1000, fun _ _ => some 1, fun _ _ => false⟩

def start : State runtime := ⟨.genesis, registry, holdings, []⟩

/-- The owner brings the item in, a thousand-unit note is made, notes are transferred, and the item
leaves for another account. -/
def moves : List (Move runtime) :=
  [.call (.signed (signer 0)) (.toPrivate .nft (mint 9 1000000000000 10)),
    .call (.signed (signer 1)) (.toPrivate .ft (mint 8 500 11)),
    .call (.signed (signer 0)) (.privateTransfer .ft (reshape 1 20)),
    .call (.signed (signer 1)) (.toPublic .nft (redeem 9 1000000000000 3 30))]

def history : History runtime := trace Move.next start moves

def final : State runtime := moves.foldl Move.next start

theorem moves_calls {m : Move runtime} (hm : m ∈ moves) : ∃ origin call, m = .call origin call := by
  simp only [moves, List.mem_cons, List.not_mem_nil, or_false] at hm
  rcases hm with rfl | rfl | rfl | rfl <;> exact ⟨_, _, rfl⟩

theorem run_history : Run Move.next Move.Allowed start history final := by
  refine Run.play fun x hx => ?_
  obtain ⟨origin, call, heq⟩ := moves_calls (mem_of_trace hx)
  rw [heq]
  trivial

theorem fpDecode_field (n : ℕ) :
    fpDecode (F := runtime.crypto.toFields) (field n).toList = .ok (field n) :=
  decodeVec_eq_ok.mpr (Bytes.ofList?_toList (field n))

theorem start_reachable : Reachable start := ⟨start, [], rfl, .nil⟩

set_option maxRecDepth 4000 in
theorem start_item : NonFungibleId start (field 9) 1 1 := ⟨_, rfl, rfl⟩

/-- A tree with enough free leaves takes the entries. -/
theorem insertAll_isSome (model : crypto.Model) (itemHash : crypto.ItemHash)
    (es : List (Entry crypto)) (t : WorkingTree crypto) (h : t.size + es.length ≤ 2 ^ 19) :
    (t.insertAll model itemHash es).isSome = true := by
  induction es generalizing t with
  | nil => rfl
  | cons e es ih =>
    rw [List.length_cons] at h
    have hlt : (if t.leafDigest.isSome then t.currentPath.leafIndex + 1 else 0) < 2 ^ 19 := by
      show t.size < 2 ^ 19
      omega
    have hinsert : ∃ t', WorkingTree.insert model itemHash t e = some t' :=
      ⟨_, Option.map_eq_some_iff.mpr ⟨_, if_pos hlt, rfl⟩⟩
    obtain ⟨t', ht'⟩ := hinsert
    have ⟨_, _, hsize, _⟩ := WorkingTree.insert_spec crypto_lawful ht'
    rw [WorkingTree.insertAll_cons, ht']
    exact ih t' (by omega)

def pair (n : ℕ) : Entry crypto := (⟨false, ⟨field 0, 0⟩, field n⟩,
  ⟨0, ⟨field 0, field 0, field 0, field 0, field 0⟩, ⟨field 0, ⟨List.replicate 96 0, by simp⟩⟩⟩)

/-- Two pairs of one shard around one of another. -/
def pairs : List (Entry crypto) := [40, 41, 296].map pair

end Data

end Sample

end ZkNft
