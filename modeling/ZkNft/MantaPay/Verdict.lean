import ZkNft.MantaPay.PublicBalances

/-! The answer to a posting call as a function of its arguments and of the state before it: when
it is accepted, when it is refused and when it does not return. -/

namespace ZkNft

variable {R : Runtime}

/-- What the proof system answers on a posting key. -/
def proofAnswer (shape : TransferShape) (key : TransferPostingKey R) :
    Option (Except R.crypto.ProofSystemError Bool) := do
  let bytes ← R.crypto.verifyingContext shape
  let context ← (R.crypto.decodeVerifyingContext bytes).toOption
  return R.crypto.hasValidProof context key.authorizationKey key.body

/-- What a ledger makes of that answer. -/
def verdict (event : PreprocessedEvent R.Account) :
    Except R.crypto.ProofSystemError Bool →
      Exec (TransferLedgerError R) (PreprocessedEvent R.Account)
  | .ok true => .ok event
  | .ok false => .err .invalidProof
  | .error e => .err (.proofSystemError e)

/-- The public values that go with a shape. -/
def TransferPostingKey.Public (key : TransferPostingKey R) : TransferShape → Prop
  | .toPrivate => key.assetId.isSome ∧ ∃ source, key.sources = [source]
  | .privateTransfer => True
  | .toPublic => key.assetId.isSome ∧ ∃ sink, key.sinks = [sink]

/-- The event of a key names its asset and its only public value. -/
def TransferPostingKey.Tells (key : TransferPostingKey R) : PreprocessedEvent R.Account → Prop
  | .toPrivate asset source => (∃ a, key.assetId = some a ∧ fpEncode a = .ok asset.id) ∧
    key.sources = [(source, assetValueDecode asset.value)]
  | .privateTransfer => key.shape = some .privateTransfer
  | .toPublic asset sink => (∃ a, key.assetId = some a ∧ fpEncode a = .ok asset.id) ∧
    key.sinks = [(sink, assetValueDecode asset.value)]

section Proof
variable (hc : R.crypto.Lawful) {key : TransferPostingKey R} {shape : TransferShape}
include hc

theorem proofAnswer_total (shape : TransferShape) (key : TransferPostingKey R) :
    ∃ answer, proofAnswer shape key = some answer := by
  obtain ⟨b, v, hb, hv⟩ := hc.verifyingContext_loads shape
  exact ⟨_, by simp only [proofAnswer, hb, Option.bind_eq_bind, Option.bind_some, hv]; rfl⟩

theorem verify_eq {bytes : List UInt8} {event : PreprocessedEvent R.Account}
    {answer : Except R.crypto.ProofSystemError Bool}
    (hb : R.crypto.verifyingContext shape = some bytes)
    (ha : proofAnswer shape key = some answer) :
    verify R key bytes event = verdict event answer := by
  obtain ⟨b, v, hb', hv⟩ := hc.verifyingContext_loads shape
  obtain rfl := Option.some.inj (hb.symm.trans hb')
  have hval : R.crypto.hasValidProof v key.authorizationKey key.body = answer := by
    simp only [proofAnswer, hb, Option.bind_eq_bind, Option.bind_some, hv] at ha
    exact Option.some.inj ha
  simp only [verify, hv, Except.mapError, Exec.lift, Exec.ok_bind, hval]
  cases answer with
  | error e => rfl
  | ok accepted => cases accepted <;> rfl

theorem FTTransferLedger.isValid_eq {answer : Except R.crypto.ProofSystemError Bool}
    (hs : key.shape = some shape) (hp : key.Public shape)
    (ha : proofAnswer shape key = some answer) :
    ∃ event, key.Tells event ∧ FTTransferLedger.isValid R key = verdict event answer := by
  obtain ⟨bytes, _, hb, -⟩ := hc.verifyingContext_loads shape
  have hv : ∀ event, verify R key bytes event = verdict event answer :=
    fun event => verify_eq hc hb ha
  cases shape with
  | toPrivate =>
    obtain ⟨hid, source, hsrc⟩ := hp
    obtain ⟨a, hid⟩ := Option.isSome_iff_exists.mp hid
    obtain ⟨b, henc⟩ := fpEncode_total hc a
    refine ⟨.toPrivate ⟨b, assetValueEncode source.2⟩ source.1,
      ⟨⟨a, hid, henc⟩, by simp [hsrc]⟩, ?_⟩
    simp only [FTTransferLedger.isValid, hs, hid, henc, hb, hsrc, Exec.okOr, slice0,
      Except.mapError, Exec.lift, Exec.ok_bind]
    exact hv _
  | privateTransfer =>
    refine ⟨.privateTransfer, hs, ?_⟩
    simp only [FTTransferLedger.isValid, hs, hb, Exec.okOr, Exec.ok_bind]
    exact hv _
  | toPublic =>
    obtain ⟨hid, sink, hsnk⟩ := hp
    obtain ⟨a, hid⟩ := Option.isSome_iff_exists.mp hid
    obtain ⟨b, henc⟩ := fpEncode_total hc a
    refine ⟨.toPublic ⟨b, assetValueEncode sink.2⟩ sink.1, ⟨⟨a, hid, henc⟩, by simp [hsnk]⟩, ?_⟩
    simp only [FTTransferLedger.isValid, hs, hid, henc, hb, hsnk, Exec.okOr, slice0,
      Except.mapError, Exec.lift, Exec.ok_bind]
    exact hv _

theorem NFTTransferLedger.isValid_eq {answer : Except R.crypto.ProofSystemError Bool}
    (hs : key.shape = some shape) (hp : key.Public shape)
    (ha : proofAnswer shape key = some answer) :
    ∃ event, key.Tells event ∧ NFTTransferLedger.isValid R key = verdict event answer := by
  obtain ⟨bytes, _, hb, -⟩ := hc.verifyingContext_loads shape
  have hv : ∀ event, verify R key bytes event = verdict event answer :=
    fun event => verify_eq hc hb ha
  cases shape with
  | toPrivate =>
    obtain ⟨hid, source, hsrc⟩ := hp
    obtain ⟨a, hid⟩ := Option.isSome_iff_exists.mp hid
    obtain ⟨b, henc⟩ := fpEncode_total hc a
    refine ⟨.toPrivate ⟨b, assetValueEncode source.2⟩ source.1,
      ⟨⟨a, hid, henc⟩, by simp [hsrc]⟩, ?_⟩
    simp only [NFTTransferLedger.isValid, NFTTransferLedger.encodedAssetId, hs, hid, henc, hb, hsrc,
      Exec.expect, Exec.expectOk, slice0, Exec.ok_bind]
    exact hv _
  | privateTransfer =>
    refine ⟨.privateTransfer, hs, ?_⟩
    simp only [NFTTransferLedger.isValid, hs, hb, Exec.expect, Exec.ok_bind]
    exact hv _
  | toPublic =>
    obtain ⟨hid, sink, hsnk⟩ := hp
    obtain ⟨a, hid⟩ := Option.isSome_iff_exists.mp hid
    obtain ⟨b, henc⟩ := fpEncode_total hc a
    refine ⟨.toPublic ⟨b, assetValueEncode sink.2⟩ sink.1, ⟨⟨a, hid, henc⟩, by simp [hsnk]⟩, ?_⟩
    simp only [NFTTransferLedger.isValid, NFTTransferLedger.encodedAssetId, hs, hid, henc, hb, hsnk,
      Exec.expect, Exec.expectOk, slice0, Exec.ok_bind]
    exact hv _

/-- On a key of a known shape both ledgers answer what the proof system answers. -/
theorem Pallet.isValid_eq (t : AssetType) {answer : Except R.crypto.ProofSystemError Bool}
    (hs : key.shape = some shape) (hp : key.Public shape)
    (ha : proofAnswer shape key = some answer) :
    ∃ event, key.Tells event ∧ (ledgerOf R t).isValid key = verdict event answer := by
  cases t with
  | ft => exact FTTransferLedger.isValid_eq hc hs hp ha
  | pft => exact FTTransferLedger.isValid_eq hc hs hp ha
  | nft => exact NFTTransferLedger.isValid_eq hc hs hp ha
  | sbt => exact NFTTransferLedger.isValid_eq hc hs hp ha

end Proof

section Shape
variable {s : State R} {o : Signer R} {call : Call R} {q : Posting R}
  {post : Config.TransferPost R.crypto.toFields}

/-- The decoded post has the numbers of the encoded one. -/
theorem TransferPost.tryInto_counts {encoded : TransferPost}
    (h : encoded.tryInto = .ok post) :
    post.body.sources.length = encoded.sources.length ∧
      post.body.senderPosts.length = encoded.senderPosts.length ∧
      post.body.receiverPosts.length = encoded.receiverPosts.length ∧
      post.body.sinks.length = encoded.sinks.length := by
  simp only [TransferPost.tryInto, Exec.except_bind_eq_ok] at h
  obtain ⟨proof, -, signature, -, assetId, -, senders, hse, receivers, hre, h⟩ := h
  obtain rfl := Except.ok.inj h
  have hsenders := (Exec.except_mapM_eq_ok.mp hse).length_eq
  have hreceivers := (Exec.except_mapM_eq_ok.mp hre).length_eq
  exact ⟨List.length_map _, hsenders.symm, hreceivers.symm, List.length_map _⟩

/-- The counts of a post that a guarded call hands on. -/
structure Posting.Counts (q : Posting R) (body : Config.TransferPostBody R.crypto.toFields) :
    Prop where
  sources : body.sources.length = q.shape.counts.1
  senders : body.senderPosts.length = q.shape.counts.2.1
  receivers : body.receiverPosts.length = q.shape.counts.2.2.1
  sinks : body.sinks.length = q.shape.counts.2.2.2
  accounts : q.sources.length = q.shape.counts.1 ∧ q.sinks.length = q.shape.counts.2.2.2

theorem Call.guard_counts (hq : call.posting o.account = some q) (hg : call.Guard s)
    (hd : q.post.tryInto = .ok post) : q.Counts post.body := by
  have ⟨h₁, h₂, h₃, h₄⟩ := Call.guard_shape hq hg
  have ⟨hso, hse, hre, hsi⟩ := TransferPost.tryInto_counts hd
  refine ⟨hso.trans h₁, hse.trans h₂, hre.trans h₃, hsi.trans h₄, ?_⟩
  cases call with
  | publicTransfer asset sink => cases hq
  | _ =>
    obtain rfl := Option.some.inj hq
    exact ⟨rfl, rfl⟩

/-- A post that passes the checks has the shape its call asks for. -/
theorem TransferLedger.Checked.shape (hc : R.crypto.Lawful) {L : TransferLedger R}
    (hcounts : q.Counts post.body)
    (h : TransferLedger.Checked L s post q.sources q.sinks) :
    (TransferLedger.postingKey post q.sources q.sinks).shape = some q.shape ∧
      (TransferLedger.postingKey post q.sources q.sinks).Public q.shape := by
  have hid := h.participants.assetId
  have hkey : (post.authorizationSignature.map (·.authorizationKey)).isSome =
      decide (post.body.senderPosts ≠ []) := by
    rw [Option.isSome_map, Bool.eq_iff_iff, hc.authorization_iff post h.signature,
      decide_eq_true_eq]
  have hassets : post.body.assetId.isSome =
      decide (post.body.sources ≠ [] ∨ post.body.sinks ≠ []) := by
    rw [Bool.eq_iff_iff, hid, decide_eq_true_eq]
  have hso := hcounts.sources
  have hse := hcounts.senders
  have hre := hcounts.receivers
  have hsi := hcounts.sinks
  have hzso : (q.sources.zip post.body.sources).length = q.shape.counts.1 := by
    rw [List.length_zip, hcounts.accounts.1, hso, Nat.min_self]
  have hzsi : (q.sinks.zip post.body.sinks).length = q.shape.counts.2.2.2 := by
    rw [List.length_zip, hcounts.accounts.2, hsi, Nat.min_self]
  simp only [TransferPostingKey.shape, TransferLedger.postingKey, hkey, hassets, hzso, hzsi, hse,
    hre, ← List.length_pos_iff, hso, hsi, TransferPostingKey.Public]
  cases hshape : q.shape with
  | toPrivate =>
    rw [hshape] at hzso
    have hone := List.length_eq_one_iff.mp hzso
    exact ⟨hc.shape_toPrivate, by simp [TransferShape.counts], hone⟩
  | privateTransfer => exact ⟨hc.shape_privateTransfer, trivial⟩
  | toPublic =>
    rw [hshape] at hzsi
    have hone := List.length_eq_one_iff.mp hzsi
    exact ⟨hc.shape_toPublic, by simp [TransferShape.counts], hone⟩

end Shape

section Settlement
variable {s : State R} {q : Posting R} {post : Config.TransferPost R.crypto.toFields}
  {a : R.crypto.Fp}

/-- The pool can take or pay the public value of a token, or the item can move. -/
def Settles (s : State R) (body : Config.TransferPostBody R.crypto.toFields) (a : R.crypto.Fp) :
    AssetType → Prop
  | .ft | .pft => ∃ id, FungibleId s a id ∧
    (∀ v ∈ body.sources, (R.token id).canDeposit s.world R.palletAccount v false = .success) ∧
    ∀ v ∈ body.sinks, v ≤ (R.token id).reducibleBalance s.world R.palletAccount true
  | .nft | .sbt => ∃ c i, NonFungibleId s a c i ∧ R.uniquesCanTransfer s.world c i = true

/-- The accounts and values of a call that posts public values: none is the pallet's, none is
zero. -/
structure Posting.Proper (q : Posting R) (body : Config.TransferPostBody R.crypto.toFields) :
    Prop extends q.Counts body where
  account : ∀ x ∈ q.sources ++ q.sinks, x ≠ R.palletAccount
  value : ∀ v ∈ body.sources ++ body.sinks, v ≠ 0

/-- A post with an asset id has one public value. -/
theorem TransferLedger.Checked.one {L : TransferLedger R} (hq : q.Proper post.body)
    (h : TransferLedger.Checked L s post q.sources q.sinks) (ha : post.body.assetId = some a) :
    ∃ x v, x ≠ R.palletAccount ∧ v ≠ 0 ∧
      (q.sources = [x] ∧ q.sinks = [] ∧ post.body.sources = [v] ∧ post.body.sinks = [] ∨
        q.sources = [] ∧ q.sinks = [x] ∧ post.body.sources = [] ∧ post.body.sinks = [v]) := by
  have hid : post.body.sources ≠ [] ∨ post.body.sinks ≠ [] :=
    h.participants.assetId.mp (by simp [ha])
  have hso := hq.sources
  have hsi := hq.sinks
  have ⟨hqso, hqsi⟩ := hq.accounts
  cases hshape : q.shape with
  | privateTransfer =>
    rw [hshape] at hso hsi
    have hnil := List.length_eq_zero_iff.mp hso
    have hnil' := List.length_eq_zero_iff.mp hsi
    simp [hnil, hnil'] at hid
  | toPrivate =>
    rw [hshape] at hso hsi hqso hqsi
    obtain ⟨x, hx⟩ := List.length_eq_one_iff.mp hqso
    obtain ⟨v, hv⟩ := List.length_eq_one_iff.mp hso
    have hnil := List.length_eq_zero_iff.mp hqsi
    have hnil' := List.length_eq_zero_iff.mp hsi
    exact ⟨x, v, hq.account x (by simp [hx]), hq.value v (by simp [hv]), .inl ⟨hx, hnil, hv, hnil'⟩⟩
  | toPublic =>
    rw [hshape] at hso hsi hqso hqsi
    obtain ⟨x, hx⟩ := List.length_eq_one_iff.mp hqsi
    obtain ⟨v, hv⟩ := List.length_eq_one_iff.mp hsi
    have hnil := List.length_eq_zero_iff.mp hqso
    have hnil' := List.length_eq_zero_iff.mp hso
    exact ⟨x, v, hq.account x (by simp [hx]), hq.value v (by simp [hv]), .inr ⟨hnil, hx, hnil', hv⟩⟩

variable (hR : R.Lawful) {p : PayStorage}
include hR

theorem FTTransferLedger.settles_iff (hq : q.Proper post.body)
    (h : TransferLedger.Checked (FTTransferLedger.ledger R) s post q.sources q.sinks)
    (ha : post.body.assetId = some a) :
    (∃ u s', FTTransferLedger.updatePublicBalances R a (q.sources.zip post.body.sources)
      (q.sinks.zip post.body.sinks) { s with pay := p } = (.ok u, s')) ↔
      Settles s post.body a .ft := by
  obtain ⟨x, v, hx, hv, hone⟩ := h.one hq ha
  rcases hone with ⟨hqso, hqsi, hso, hsi⟩ | ⟨hqso, hqsi, hso, hsi⟩
  · have hcheck := h.participants.source a ha (by simp [hso])
    obtain ⟨-, id, hid, hall⟩ := checkSourceAccounts_eq_ok.mp hcheck
    simp only [hqso, hqsi, hso, hsi, List.zip_cons_cons, List.zip_nil_right, List.mem_singleton,
      forall_eq] at hall ⊢
    obtain ⟨hvalid, hred⟩ := hall
    rw [fungibleId_ok] at hid
    simp only [updatePublicBalances_one (.inl ⟨rfl, rfl⟩), Settles, hso, hsi, List.mem_singleton,
      forall_eq, List.cons_ne_nil, if_false, List.not_mem_nil, IsEmpty.forall_iff, implies_true,
      and_true]
    constructor
    · intro ⟨_, _, id', w, hid', _, hw, _⟩
      have hid' : FungibleId s a id' := hid'
      exact ⟨id', hid', hR.frame.transfer_canDeposit _ _ _ _ _ _ hw hx hv⟩
    · intro ⟨id', hid', hdep⟩
      obtain rfl := hid.unique hid'
      obtain ⟨w, hw⟩ := hR.frame.transfer_total _ _ _ _ _ hred hdep
      exact ⟨⟨⟩, _, id, w, hid, hvalid, hw, rfl⟩
  · have hcheck := h.participants.sink a ha (by simp [hsi])
    obtain ⟨-, id, hid, hall⟩ := checkSinkAccounts_eq_ok.mp hcheck
    simp only [hqso, hqsi, hso, hsi, List.zip_cons_cons, List.zip_nil_right, List.mem_singleton,
      forall_eq] at hall ⊢
    obtain ⟨hvalid, hdep⟩ := hall
    rw [fungibleId_ok] at hid
    simp only [updatePublicBalances_one (.inr ⟨rfl, rfl⟩), Settles, hso, hsi, List.mem_singleton,
      forall_eq, if_true, List.not_mem_nil, IsEmpty.forall_iff, implies_true, true_and]
    constructor
    · intro ⟨_, _, id', w, hid', _, hw, _⟩
      have hid' : FungibleId s a id' := hid'
      exact ⟨id', hid', hR.frame.transfer_reducible _ _ _ _ _ hw (Ne.symm hx) hv⟩
    · intro ⟨id', hid', hred⟩
      obtain rfl := hid.unique hid'
      obtain ⟨w, hw⟩ := hR.frame.transfer_total _ _ _ _ _ hred hdep
      exact ⟨⟨⟩, _, id, w, hid, hvalid, hw, rfl⟩

theorem NFTTransferLedger.settles_iff (hq : q.Proper post.body)
    (h : TransferLedger.Checked (NFTTransferLedger.ledger R) s post q.sources q.sinks)
    (ha : post.body.assetId = some a) :
    (∃ u s', NFTTransferLedger.updatePublicBalances R a (q.sources.zip post.body.sources)
      (q.sinks.zip post.body.sinks) { s with pay := p } = (.ok u, s')) ↔
      Settles s post.body a .nft := by
  obtain ⟨x, v, hx, hv, hone⟩ := h.one hq ha
  have hzip : q.sources.zip post.body.sources = [(x, v)] ∧ q.sinks.zip post.body.sinks = [] ∨
      q.sources.zip post.body.sources = [] ∧ q.sinks.zip post.body.sinks = [(x, v)] := by
    rcases hone with ⟨hqso, hqsi, hso, hsi⟩ | ⟨hqso, hqsi, hso, hsi⟩
    · exact .inl (by simp [hqso, hqsi, hso, hsi])
    · exact .inr (by simp [hqso, hqsi, hso, hsi])
  simp only [updatePublicBalances_one hzip, Settles]
  constructor
  · intro ⟨_, _, c, i, w, hid, hw, _⟩
    exact ⟨c, i, hid, (hR.frame.uniquesTransfer_total _ _ _ _).mp ⟨w, hw⟩⟩
  · intro ⟨c, i, hid, hcan⟩
    obtain ⟨w, hw⟩ := (hR.frame.uniquesTransfer_total _ _ _ _).mpr hcan
    exact ⟨⟨⟩, _, c, i, w, hid, hw, rfl⟩

/-- After the checks, the public update depends on the pool and on the metadata alone. -/
theorem Pallet.settles_iff {t : AssetType} (hq : q.Proper post.body)
    (h : TransferLedger.Checked (ledgerOf R t) s post q.sources q.sinks)
    (ha : post.body.assetId = some a) :
    (∃ u s', (ledgerOf R t).updatePublicBalances a (q.sources.zip post.body.sources)
      (q.sinks.zip post.body.sinks) { s with pay := p } = (.ok u, s')) ↔
      Settles s post.body a t := by
  cases t with
  | ft => exact FTTransferLedger.settles_iff hR hq h ha
  | pft => exact FTTransferLedger.settles_iff hR hq h ha
  | nft => exact NFTTransferLedger.settles_iff hR hq h ha
  | sbt => exact NFTTransferLedger.settles_iff hR hq h ha

end Settlement

end ZkNft
