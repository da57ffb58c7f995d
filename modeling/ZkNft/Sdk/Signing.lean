import ZkNft.MantaPay.Dispatch
import ZkNft.Sdk.RemoteTransact

/-! From the posts that the wallet signs to the calls of the pallet: every post of a known shape
goes into the call whose shape check it passes, and no other post is sent. -/

namespace ZkNft
namespace Sdk

variable {R : Runtime} {F : Fields}

/-- The names of the runtime's asset types. -/
def assetTypeOfName (name : String) : Option AssetType :=
  if name = "FT" then some .ft
  else if name = "NFT" then some .nft
  else if name = "SBT" then some .sbt
  else if name = "PFT" then some .pft
  else none

/-- What the SDK relies on in `api.tx`: an extrinsic encodes the call of its name, with arguments
read as the runtime's types. -/
structure TxApi.Builds (api : TxApi) (encode : Call R → Extrinsic) : Prop where
  toPrivate : ∀ name assetType json post, assetTypeOfName name = some assetType →
    TransferPost.deserialize json = some post →
    api.toPrivate name json = .ok (encode (.toPrivate assetType post))
  privateTransfer : ∀ name assetType json post, assetTypeOfName name = some assetType →
    TransferPost.deserialize json = some post →
    api.privateTransfer name json = .ok (encode (.privateTransfer assetType post))
  privateTransferAsset : ∀ (assetId : ℕ) name assetType address json post,
    assetTypeOfName name = some assetType → TransferPost.deserialize json = some post →
    api.privateTransferAsset assetId name address json =
      .ok (encode (.privateTransferAsset (BitVec.ofNat 128 assetId) assetType address post))
  toPublic : ∀ name assetType json post, assetTypeOfName name = some assetType →
    TransferPost.deserialize json = some post →
    api.toPublic name json = .ok (encode (.toPublic assetType post))

/-- The numbers of sources, senders, receivers and sinks of a signed post. -/
def countsOf (post : Config.TransferPost F) : ℕ × ℕ × ℕ × ℕ :=
  (post.body.sources.length, post.body.senderPosts.length, post.body.receiverPosts.length,
    post.body.sinks.length)

/-- The pallet's shape check of a posting. -/
def ShapeChecked (q : Posting R) : Prop :=
  Pallet.HasShape q.post q.shape.counts.1 q.shape.counts.2.1 q.shape.counts.2.2.1
    q.shape.counts.2.2.2

/-- The call carries the pallet's own conversion of the post, and its shape check passes. -/
def Carries (assetType : AssetType) (post : Config.TransferPost F)
    (call : Call R) : Prop :=
  ∀ origin, ∃ q, call.posting origin = some q ∧ q.assetType = assetType ∧
    TransferPost.tryFrom post = .ok q.post ∧ ShapeChecked q

/-- The call that the SDK makes of a post of a shape. -/
def callOf (assetType : AssetType) (assetId : ℕ) (address : Bytes 32) (post : TransferPost) :
    TransferShape → Call R
  | .toPrivate => .toPrivate assetType post
  | .privateTransfer =>
    if assetType = .sbt then
      .privateTransferAsset (BitVec.ofNat 128 assetId) assetType address post
    else .privateTransfer assetType post
  | .toPublic => .toPublic assetType post

/-- The values of the receivers fit a JavaScript number, and the post has one of the shapes. -/
def Sendable (post : Config.TransferPost F) : Prop :=
  (∀ receiver ∈ post.body.receiverPosts, Representable receiver) ∧
    ∃ shape : TransferShape, countsOf post = shape.counts

section Mapping
variable {api : TxApi} {encode : Call R → Extrinsic} {name : String} {assetType : AssetType}
  {assetId : ℕ} {address : Bytes 32} {b : TransferPost} {shape : TransferShape}

theorem object_arrays (b : TransferPost) : ∃ sources senders receivers sinks,
    (TransferPost.object b).get ["sources"] = .ok (some (.arr sources)) ∧
      (TransferPost.object b).get ["sender_posts"] = .ok (some (.arr senders)) ∧
      (TransferPost.object b).get ["receiver_posts"] = .ok (some (.arr receivers)) ∧
      (TransferPost.object b).get ["sinks"] = .ok (some (.arr sinks)) ∧
      sources.length = b.sources.length ∧ senders.length = b.senderPosts.length ∧
      receivers.length = b.receiverPosts.length ∧ sinks.length = b.sinks.length := by
  refine ⟨_, _, _, _, rfl, rfl, rfl, rfl, ?_, ?_, ?_, ?_⟩ <;> exact List.length_map _

theorem mapPostToTransaction_object (api : TxApi) (name : String) (assetId : ℕ)
    (address : Bytes 32) (b : TransferPost) :
    api.mapPostToTransaction name assetId (TransferPost.object b) address =
      if Pallet.HasShape b 1 0 1 0 then api.toPrivate name (TransferPost.object b)
      else if Pallet.HasShape b 0 2 2 0 then
        if name = "SBT" then
          api.privateTransferAsset assetId name address (TransferPost.object b)
        else api.privateTransfer name (TransferPost.object b)
      else if Pallet.HasShape b 0 2 1 1 then api.toPublic name (TransferPost.object b)
      else .error ⟨⟩ := by
  obtain ⟨sources, senders, receivers, sinks, hso, hse, hre, hsi, hlso, hlse, hlre, hlsi⟩ :=
    object_arrays b
  have hlength : ∀ l : List Json, Json.arrayLength (some (.arr l)) = .ok l.length := fun l => rfl
  simp only [TxApi.mapPostToTransaction, hso, hse, hre, hsi, Exec.except_ok_bind, hlength,
    hlso, hlse, hlre, hlsi]
  rfl

theorem assetTypeOfName_sbt (h : assetTypeOfName name = some assetType) :
    name = "SBT" ↔ assetType = .sbt := by
  unfold assetTypeOfName at h
  split_ifs at h with hft hnft hsbt hpft
  all_goals cases h
  · simp [hft]
  · simp [hnft]
  · simp [hsbt]
  · simp [hpft]

theorem mapPostToTransaction_shape (hapi : api.Builds encode)
    (hname : assetTypeOfName name = some assetType)
    (h : Pallet.HasShape b shape.counts.1 shape.counts.2.1 shape.counts.2.2.1
      shape.counts.2.2.2) :
    api.mapPostToTransaction name assetId (TransferPost.object b) address =
      .ok (encode (callOf assetType assetId address b shape)) := by
  have hread := TransferPost.deserialize_object b
  rw [mapPostToTransaction_object]
  cases shape with
  | toPrivate =>
    have hmint : Pallet.HasShape b 1 0 1 0 := h
    rw [if_pos hmint]
    exact hapi.toPrivate name assetType _ b hname hread
  | privateTransfer =>
    have hmint : ¬ Pallet.HasShape b 1 0 1 0 := by
      intro hmint
      have hso := h.1.symm.trans hmint.1
      cases hso
    have htransfer : Pallet.HasShape b 0 2 2 0 := h
    rw [if_neg hmint, if_pos htransfer, callOf]
    by_cases hsbt : assetType = .sbt
    · rw [if_pos ((assetTypeOfName_sbt hname).mpr hsbt), if_pos hsbt]
      exact hapi.privateTransferAsset assetId name assetType address _ b hname hread
    · rw [if_neg fun hs => hsbt ((assetTypeOfName_sbt hname).mp hs), if_neg hsbt]
      exact hapi.privateTransfer name assetType _ b hname hread
  | toPublic =>
    have hmint : ¬ Pallet.HasShape b 1 0 1 0 := by
      intro hmint
      have hso := h.1.symm.trans hmint.1
      cases hso
    have htransfer : ¬ Pallet.HasShape b 0 2 2 0 := by
      intro htransfer
      have hre := h.2.2.1.symm.trans htransfer.2.2.1
      cases hre
    have hreclaim : Pallet.HasShape b 0 2 1 1 := h
    rw [if_neg hmint, if_neg htransfer, if_pos hreclaim]
    exact hapi.toPublic name assetType _ b hname hread

theorem mapPostToTransaction_ok {x : Extrinsic}
    (h : api.mapPostToTransaction name assetId (TransferPost.object b) address = .ok x) :
    ∃ shape : TransferShape, Pallet.HasShape b shape.counts.1 shape.counts.2.1
      shape.counts.2.2.1 shape.counts.2.2.2 := by
  rw [mapPostToTransaction_object] at h
  split_ifs at h with hmint htransfer hsbt hreclaim
  · exact ⟨.toPrivate, hmint⟩
  · exact ⟨.privateTransfer, htransfer⟩
  · exact ⟨.privateTransfer, htransfer⟩
  · exact ⟨.toPublic, hreclaim⟩

/-- The pallet's conversion keeps the numbers. -/
theorem hasShape_iff {post : Config.TransferPost F}
    (h : TransferPost.tryFrom post = .ok b) :
    Pallet.HasShape b shape.counts.1 shape.counts.2.1 shape.counts.2.2.1 shape.counts.2.2.2 ↔
      countsOf post = shape.counts := by
  obtain ⟨-, -, hso, hse, hre, hsi, -⟩ := TransferPost.tryFrom_eq_ok.mp h
  have hlse := (Exec.except_mapM_eq_ok.mp hse).length_eq
  have hlre := (Exec.except_mapM_eq_ok.mp hre).length_eq
  have hlso : post.body.sources.length = b.sources.length := by
    rw [← hso, List.length_map]
  have hlsi : post.body.sinks.length = b.sinks.length := by
    rw [← hsi, List.length_map]
  rw [countsOf, hlso, hlse, hlre, hlsi, Pallet.HasShape, Prod.ext_iff, Prod.ext_iff, Prod.ext_iff]

theorem callOf_carries {post : Config.TransferPost F}
    (hpost : TransferPost.tryFrom post = .ok b) (h : countsOf post = shape.counts) :
    Carries assetType post (callOf (R := R) assetType assetId address b shape) := by
  intro origin
  have hshape := (hasShape_iff hpost).mpr h
  cases shape with
  | toPrivate => exact ⟨_, rfl, rfl, hpost, hshape⟩
  | toPublic => exact ⟨_, rfl, rfl, hpost, hshape⟩
  | privateTransfer =>
    unfold callOf
    split_ifs
    · exact ⟨_, rfl, rfl, hpost, hshape⟩
    · exact ⟨_, rfl, rfl, hpost, hshape⟩

end Mapping

section Batches
variable {α : Type}

/-- Slices of a list, one after the other, make up the list. -/
theorem slices_flatten (k count : ℕ) (l : List α) (h : l.length ≤ count * k) :
    ((List.range count).map fun i => (l.drop (i * k)).take k).flatten = l := by
  induction count generalizing l with
  | zero =>
    rw [List.length_eq_zero_iff.mp (by omega : l.length = 0)]
    rfl
  | succ count ih =>
    have hrest : (l.drop k).length ≤ count * k := by
      rw [List.length_drop]
      rw [Nat.succ_mul] at h
      omega
    have hslices : ((List.range count).map fun i => (l.drop ((i + 1) * k)).take k) =
        (List.range count).map fun i => ((l.drop k).drop (i * k)).take k := by
      apply List.map_congr_left
      intro i _
      rw [List.drop_drop, Nat.succ_mul, Nat.add_comm]
    rw [List.range_succ_eq_map, List.map_cons, List.map_map, List.flatten_cons, Nat.zero_mul,
      List.drop_zero]
    show l.take k ++ ((List.range count).map fun i => (l.drop ((i + 1) * k)).take k).flatten = l
    rw [hslices, ih _ hrest, List.take_append_drop]

/-- The batches hold the transactions in order, at most two each. -/
theorem transactionsToBatches_slices (api : TxApi) (transactions : List Extrinsic) :
    ∃ batches : List (List Extrinsic),
      api.transactionsToBatches transactions = batches.map api.batch ∧
      batches.flatten = transactions ∧ ∀ batch ∈ batches, batch.length ≤ TxApi.MAX_BATCH := by
  refine ⟨(List.range ((transactions.length + TxApi.MAX_BATCH - 1) / TxApi.MAX_BATCH)).map fun i =>
    (transactions.drop (i * TxApi.MAX_BATCH)).take TxApi.MAX_BATCH, ?_,
    slices_flatten _ _ transactions ?_, ?_⟩
  · rw [TxApi.transactionsToBatches, List.map_map]
    rfl
  · rw [TxApi.MAX_BATCH]
    omega
  · intro batch hbatch
    obtain ⟨i, -, rfl⟩ := List.mem_map.mp hbatch
    exact List.length_take_le _ _

end Batches

section Signed
variable {api : TxApi} {encode : Call R → Extrinsic}
  {bn : Option Json → Except Thrown (List UInt8)} {name : String} {assetType : AssetType}
  {assetId : ℕ} {address : Bytes 32}

/-- The loop of `sign_transaction` on one post. -/
def signPost (api : TxApi) (bn : Option Json → Except Thrown (List UInt8)) (name : String)
    (assetId : ℕ) (address : Bytes 32) (post : Json) : Except Thrown Extrinsic := do
  let convertedPost ← transferPost bn post
  api.mapPostToTransaction name assetId convertedPost address

section Post
variable (hbn : BigNumber bn) (hF : F.Canonical) (hapi : api.Builds encode)
  (hname : assetTypeOfName name = some assetType) (header : Json)
  {post : Config.TransferPost F} {posts : List (Config.TransferPost F)}
include hbn hF hapi hname

theorem signPost_ok {x : Extrinsic}
    (h : signPost api bn name assetId address (TransferPost.serialize header post) = .ok x) :
    Sendable post ∧ ∃ call, encode call = x ∧ Carries assetType post call := by
  obtain ⟨b, hb⟩ := TransferPost.tryFrom_returns hF post
  obtain ⟨json, hjson, hmap⟩ := Exec.except_bind_eq_ok.mp h
  obtain ⟨hsafe, rfl⟩ := (transferPost_eq_ok hbn header hb json).mp hjson
  obtain ⟨shape, hshape⟩ := mapPostToTransaction_ok hmap
  have hcounts := (hasShape_iff hb).mp hshape
  rw [mapPostToTransaction_shape hapi hname hshape] at hmap
  exact ⟨⟨hsafe, shape, hcounts⟩, _, Except.ok.inj hmap, callOf_carries hb hcounts⟩

theorem signPost_total (h : Sendable post) :
    ∃ x, signPost api bn name assetId address (TransferPost.serialize header post) = .ok x := by
  obtain ⟨b, hb⟩ := TransferPost.tryFrom_returns hF post
  obtain ⟨hsafe, shape, hcounts⟩ := h
  have hjson := (transferPost_eq_ok hbn header hb _).mpr ⟨hsafe, rfl⟩
  exact ⟨_, Exec.except_bind_eq_ok.mpr
    ⟨_, hjson, mapPostToTransaction_shape hapi hname ((hasShape_iff hb).mpr hcounts)⟩⟩

theorem signPosts_ok {xs : List Extrinsic}
    (h : List.Forall₂ (fun post x => signPost api bn name assetId address
      (TransferPost.serialize header post) = .ok x) posts xs) :
    (∀ post ∈ posts, Sendable post) ∧
      ∃ calls, xs = calls.map encode ∧ List.Forall₂ (Carries assetType) posts calls := by
  induction h with
  | nil => exact ⟨by simp, [], rfl, .nil⟩
  | cons hhead _ ih =>
    obtain ⟨hpost, call, rfl, hcarry⟩ := signPost_ok hbn hF hapi hname header hhead
    obtain ⟨hposts, calls, rfl, hcarries⟩ := ih
    exact ⟨List.forall_mem_cons.mpr ⟨hpost, hposts⟩, call :: calls, rfl, .cons hcarry hcarries⟩

theorem signPosts_total (h : ∀ post ∈ posts, Sendable post) :
    ∃ xs, List.Forall₂ (fun post x => signPost api bn name assetId address
      (TransferPost.serialize header post) = .ok x) posts xs := by
  induction posts with
  | nil => exact ⟨[], .nil⟩
  | cons post posts ih =>
    obtain ⟨hpost, hposts⟩ := List.forall_mem_cons.mp h
    obtain ⟨x, hx⟩ := signPost_total hbn hF hapi hname header hpost
    obtain ⟨xs, hxs⟩ := ih hposts
    exact ⟨x :: xs, .cons hx hxs⟩

end Post

/-- There is one transaction for each post, in order: the call whose shape check passes, with the
pallet's own conversion of the post. The batches hold the transactions in that order. -/
structure SignResult.Sends (result : SignResult) (api : TxApi) (encode : Call R → Extrinsic)
    (assetType : AssetType) (posts : List (Config.TransferPost F)) : Prop where
  calls : ∃ calls, result.transactions = calls.map encode ∧
    List.Forall₂ (Carries assetType) posts calls
  batches : ∃ batches : List (List Extrinsic), result.txs = batches.map api.batch ∧
    batches.flatten = result.transactions ∧ ∀ batch ∈ batches, batch.length ≤ TxApi.MAX_BATCH

theorem signTransaction_ok_iff {header : Json} {posts : List (Config.TransferPost F)}
    {result : SignResult} :
    signTransaction api bn name assetId address (posts.map (TransferPost.serialize header)) =
        .ok result ↔
      ∃ xs, List.Forall₂ (fun post x => signPost api bn name assetId address
          (TransferPost.serialize header post) = .ok x) posts xs ∧
        result = ⟨posts.map (TransferPost.serialize header), xs, api.transactionsToBatches xs⟩ := by
  rw [signTransaction, Exec.except_bind_eq_ok]
  refine exists_congr fun xs => and_congr ?_ ?_
  · rw [Exec.except_mapM_eq_ok, List.forall₂_map_left_iff]
    rfl
  · exact ⟨fun h => (Except.ok.inj h).symm, fun h => h ▸ rfl⟩

end Signed

namespace Sample

def encodeNote (note : OutgoingNote) : List UInt8 :=
  note.ephemeralPublicKey.toList ++ note.ciphertext.1.toList ++ note.ciphertext.2.toList

def encodeTriple (key : Bytes 32) (ciphertext : Bytes 32 × Bytes 32 × Bytes 32) : List UInt8 :=
  key.toList ++ ciphertext.1.toList ++ ciphertext.2.1.toList ++ ciphertext.2.2.toList

def encodeReceiver (post : ReceiverPost) : List UInt8 :=
  let note := post.fullIncomingNote
  (if post.utxo.isTransparent then 1 else 0) :: post.utxo.publicAsset.id.toList ++
    post.utxo.publicAsset.value.toList ++ post.utxo.commitment.toList ++
    note.addressPartition :: note.incomingNote.ephemeralPublicKey.toList ++
    encodeTriple note.incomingNote.tag note.incomingNote.ciphertext ++
    encodeTriple note.lightIncomingNote.ephemeralPublicKey note.lightIncomingNote.ciphertext

def encodeSender (post : SenderPost) : List UInt8 :=
  post.utxoAccumulatorOutput.toList ++ post.nullifierCommitment.toList ++
    encodeNote post.outgoingNote

def encodeSignature (signature : AuthorizationSignature) : List UInt8 :=
  signature.authorizationKey.toList ++ signature.signature.1.toList ++
    signature.signature.2.toList

def encodeOption {α : Type} (f : α → List UInt8) : Option α → List UInt8
  | none => [0]
  | some a => 1 :: f a

def encodeVec {α : Type} (f : α → List UInt8) (l : List α) : List UInt8 :=
  Compact.encode l.length ++ l.flatMap f

def encodePost (post : TransferPost) : List UInt8 :=
  encodeOption encodeSignature post.authorizationSignature ++
    encodeOption Bytes.toList post.assetId ++ encodeVec Bytes.toList post.sources ++
    encodeVec encodeSender post.senderPosts ++ encodeVec encodeReceiver post.receiverPosts ++
    encodeVec Bytes.toList post.sinks ++ post.proof.toList

def encodeAssetType : AssetType → UInt8
  | .ft => 0
  | .nft => 1
  | .sbt => 2
  | .pft => 3

/-- The encoded calls of a pallet with index `46`, with accounts of four bytes. -/
def encodeCall : Call ZkNft.Sample.runtime → List UInt8
  | .toPrivate assetType post => 46 :: 0 :: encodeAssetType assetType :: encodePost post
  | .toPublic assetType post => 46 :: 1 :: encodeAssetType assetType :: encodePost post
  | .privateTransfer assetType post => 46 :: 2 :: encodeAssetType assetType :: encodePost post
  | .publicTransfer asset sink =>
    let account : ℕ := sink
    46 :: 3 :: asset.id.toList ++ asset.value.toList ++ Bytes.toLE 4 account
  | .privateTransferAsset assetId assetType address post =>
    46 :: 5 :: Bytes.toLE 16 assetId.toNat ++ encodeAssetType assetType :: address.toList ++
      encodePost post

def encode (call : Call ZkNft.Sample.runtime) : Extrinsic := ⟨4, encodeCall call⟩

/-- An extrinsic of the names and arguments that the runtime's types can read. -/
def build (name : String) (json : Json)
    (call : AssetType → TransferPost → Call ZkNft.Sample.runtime) : Except Thrown Extrinsic :=
  (assetTypeOfName name).elim (.error ⟨⟩) fun assetType =>
    (TransferPost.deserialize json).elim (.error ⟨⟩) fun post => .ok (encode (call assetType post))

def builder : TxApi :=
  { toPrivate := fun name json => build name json .toPrivate
    privateTransfer := fun name json => build name json .privateTransfer
    privateTransferAsset := fun assetId name address json =>
      build name json fun assetType post =>
        .privateTransferAsset (BitVec.ofNat 128 assetId) assetType address post
    toPublic := fun name json => build name json .toPublic
    version := 4
    batchIndex := (40, 0) }

theorem build_eq {name : String} {assetType : AssetType} {json : Json} {post : TransferPost}
    {call : AssetType → TransferPost → Call ZkNft.Sample.runtime}
    (hname : assetTypeOfName name = some assetType)
    (hpost : TransferPost.deserialize json = some post) :
    build name json call = .ok (encode (call assetType post)) := by
  rw [build, hname, hpost]
  rfl

theorem builder_builds : builder.Builds encode where
  toPrivate _ _ _ _ := build_eq
  privateTransfer _ _ _ _ := build_eq
  privateTransferAsset _ _ _ _ _ _ := build_eq
  toPublic _ _ _ _ := build_eq

end Sample

end Sdk
end ZkNft
