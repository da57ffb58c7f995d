import ZkNft.MantaPay.Verdict

/-! When a posting call is accepted and when it returns, by conditions on its arguments and on
the state before it. -/

namespace ZkNft
open TransferLedger

variable {R : Runtime} {s s' : State R} {o : Signer R} {call : Call R} {q : Posting R}
  {post : Config.TransferPost R.crypto.toFields}

/-- The decoded values of a post. -/
theorem TransferPost.tryInto_values {encoded : TransferPost} (h : encoded.tryInto = .ok post) :
    post.body.sources = encoded.sources.map assetValueDecode ∧
      post.body.sinks = encoded.sinks.map assetValueDecode := by
  simp only [TransferPost.tryInto, Exec.except_bind_eq_ok] at h
  obtain ⟨proof, -, signature, -, assetId, -, senders, -, receivers, -, h⟩ := h
  obtain rfl := Except.ok.inj h
  exact ⟨rfl, rfl⟩

/-- The asset id of a decoded post. -/
theorem TransferPost.tryInto_assetId {encoded : TransferPost} {b : Bytes 32} {a : R.crypto.Fp}
    (h : encoded.tryInto = .ok post) (hb : encoded.assetId = some b)
    (ha : fpDecode b.toList = .ok a) : post.body.assetId = some a := by
  simp only [TransferPost.tryInto, Exec.except_bind_eq_ok] at h
  obtain ⟨proof, -, signature, -, assetId, hassetId, senders, -, receivers, -, h⟩ := h
  obtain rfl := Except.ok.inj h
  rw [hb, Option.mapM_some, ha] at hassetId
  exact (Except.ok.inj hassetId).symm

theorem Call.guard_proper (hq : call.posting o.account = some q) (hg : call.Guard s)
    (hd : q.post.tryInto = .ok post) : q.Proper post.body where
  toCounts := Call.guard_counts hq hg hd
  account := by
    have ho := o.ne_pallet
    cases call with
    | publicTransfer asset sink => cases hq
    | _ =>
      obtain rfl := Option.some.inj hq
      simp [ho]
  value := by
    have ⟨hso, hsi⟩ := TransferPost.tryInto_values hd
    have hne : ∀ b : Bytes 16, assetValueDecode b > 0 → assetValueDecode b ≠ 0 := by
      intro b hb h0
      rw [h0] at hb
      exact absurd hb (by decide)
    rw [hso, hsi]
    cases call with
    | publicTransfer asset sink => cases hq
    | toPrivate t encoded =>
      obtain rfl := Option.some.inj hq
      have hnil := List.length_eq_zero_iff.mp hg.1.2.2.2
      simpa [hnil] using fun b hb => hne b (hg.2 b hb)
    | toPublic t encoded =>
      obtain rfl := Option.some.inj hq
      have hnil := List.length_eq_zero_iff.mp hg.1.1
      simpa [hnil] using fun b hb => hne b (hg.2 b hb)
    | privateTransfer t encoded =>
      obtain rfl := Option.some.inj hq
      have hnil := List.length_eq_zero_iff.mp hg.1
      have hnil' := List.length_eq_zero_iff.mp hg.2.2.2
      simp [hnil, hnil']
    | privateTransferAsset id t zk encoded =>
      obtain rfl := Option.some.inj hq
      have hnil := List.length_eq_zero_iff.mp hg.1.1
      have hnil' := List.length_eq_zero_iff.mp hg.1.2.2.2
      simp [hnil, hnil']

/-- The proof system's answer on the key of a post. -/
def Posting.answer (q : Posting R) (post : Config.TransferPost R.crypto.toFields) :
    Option (Except R.crypto.ProofSystemError Bool) :=
  proofAnswer q.shape (postingKey post q.sources q.sinks)

/-- The post passes every check and the ledger and the public assets take it. -/
structure Posting.Admits (q : Posting R) (s : State R)
    (post : Config.TransferPost R.crypto.toFields) : Prop where
  decoded : q.post.tryInto = .ok post
  checked : Checked (Pallet.ledgerOf R q.assetType) s post q.sources q.sinks
  proven : q.answer post = some (.ok true)
  room : ProxyLedger.HasRoom s.pay (entries post.body)
  settles : ∀ a, post.body.assetId = some a → Settles s post.body a q.assetType

section Lawful
variable (hR : R.Lawful)
include hR

/-- The ledger says yes exactly if the proof system does. -/
theorem Posting.isValid_eq (hq : q.Proper post.body)
    (h : Checked (Pallet.ledgerOf R q.assetType) s post q.sources q.sinks) :
    ∃ event answer, q.answer post = some answer ∧
      (Pallet.ledgerOf R q.assetType).isValid (postingKey post q.sources q.sinks) =
        verdict event answer := by
  have ⟨hshape, hpublic⟩ := h.shape hR.crypto hq.toCounts
  obtain ⟨answer, ha⟩ := proofAnswer_total hR.crypto q.shape (postingKey post q.sources q.sinks)
  obtain ⟨event, -, he⟩ := Pallet.isValid_eq hR.crypto q.assetType hshape hpublic ha
  exact ⟨event, answer, ha, he⟩

theorem Posting.postKey_ok_iff (hq : q.Proper post.body)
    (h : Checked (Pallet.ledgerOf R q.assetType) s post q.sources q.sinks) :
    (∃ u s', postKey (Pallet.ledgerOf R q.assetType) (postingKey post q.sources q.sinks) s =
      (.ok u, s')) ↔ ProxyLedger.HasRoom s.pay (entries post.body) ∧
        ∀ a, post.body.assetId = some a → Settles s post.body a q.assetType := by
  simp only [postKey_run_ok]
  cases ha : post.body.assetId with
  | none =>
    simp only [reduceCtorEq, false_imp_iff, implies_true, and_true, ← writes_iff hR.crypto]
    constructor
    · intro ⟨_, _, p', hw, _⟩
      exact ⟨p', hw⟩
    · intro ⟨p', hw⟩
      exact ⟨⟨⟩, _, p', hw, rfl⟩
  | some a =>
    simp only [Option.some.injEq, forall_eq', ← writes_iff hR.crypto]
    constructor
    · intro ⟨_, s', p', hw, hu⟩
      exact ⟨⟨p', hw⟩, (Pallet.settles_iff hR hq h ha).mp ⟨_, s', hu⟩⟩
    · intro ⟨⟨p', hw⟩, hs⟩
      obtain ⟨_, s', hu⟩ := (Pallet.settles_iff hR hq h ha).mpr hs
      exact ⟨⟨⟩, s', p', hw, hu⟩

/-- A posting call is accepted exactly if its guards hold and its post is admitted. -/
theorem Call.accepted_iff (hq : call.posting o.account = some q) :
    (∃ u s', call.dispatch (.signed o) s = (.ok u, s')) ↔
      call.Guard s ∧ ∃ post, q.Admits s post := by
  have hL := Pallet.ledgerOf_passesAccounts (R := R) q.assetType
  simp only [Call.dispatch_ok hq, Pallet.postTransaction_run_ok, post_run_ok hL]
  constructor
  · rintro ⟨u, s', hg, post, event, s₁, hd, ⟨hchk, hval, hkey⟩, -⟩
    have hp := Call.guard_proper hq hg hd
    obtain ⟨event', answer, ha, he⟩ := Posting.isValid_eq hR hp hchk
    have ⟨hroom, hset⟩ := (Posting.postKey_ok_iff hR hp hchk).mp ⟨_, s₁, hkey⟩
    refine ⟨hg, post, hd, hchk, ?_, hroom, hset⟩
    rw [ha]
    rw [he] at hval
    match answer, hval with
    | .ok true, _ => rfl
  · intro ⟨hg, post, h⟩
    have hp := Call.guard_proper hq hg h.decoded
    obtain ⟨event, answer, ha, he⟩ := Posting.isValid_eq hR hp h.checked
    obtain rfl := Option.some.inj (h.proven.symm.trans ha)
    obtain ⟨_, s₁, hkey⟩ := (Posting.postKey_ok_iff hR hp h.checked).mpr ⟨h.room, h.settles⟩
    exact ⟨⟨⟩, _, hg, post, event, s₁, h.decoded, ⟨h.checked, he, hkey⟩, rfl⟩

end Lawful

section Returns

/-- A post of public values under a fungible asset type whose asset id is no token. -/
structure Posting.Unresolved (q : Posting R) (s : State R)
    (post : Config.TransferPost R.crypto.toFields) : Prop where
  signature : R.crypto.hasValidAuthorizationSignature post = true
  assetId : post.body.assetId.isSome ↔ post.body.sources ≠ [] ∨ post.body.sinks ≠ []
  fungible : q.assetType = .ft ∨ q.assetType = .pft
  unknown : ∃ a, post.body.assetId = some a ∧ ∀ id, ¬ FungibleId s a id

/-- The posts that do not return: the account checks do not find the token, the proof system
itself fails, or the public values of an otherwise accepted post do not move. -/
def Posting.Halts (q : Posting R) (s : State R)
    (post : Config.TransferPost R.crypto.toFields) : Prop :=
  q.Unresolved s post ∨ Checked (Pallet.ledgerOf R q.assetType) s post q.sources q.sinks ∧
    ((∃ e, q.answer post = some (.error e)) ∨
      q.answer post = some (.ok true) ∧ ProxyLedger.HasRoom s.pay (entries post.body) ∧
        ∃ a, post.body.assetId = some a ∧ ¬ Settles s post.body a q.assetType)

/-- The conversion of `post_transaction`. -/
def toDispatchError (e : TransferPostError R) : Option DispatchError :=
  (e.toError R.stackDepth).map .module

/-- What is asked of the fungible assets only. -/
theorem AssetType.iff_of_fungible {motive : AssetType → Prop} {p : Prop} (ft : motive .ft ↔ p)
    (pft : motive .pft ↔ p) (nft : motive .nft) (sbt : motive .sbt) (t : AssetType) :
    motive t ↔ (t = .ft ∨ t = .pft → p) := by
  cases t with
  | ft => exact ft.trans (by simp)
  | pft => exact pft.trans (by simp)
  | nft => exact iff_of_true nft (by simp)
  | sbt => exact iff_of_true sbt (by simp)

theorem Pallet.checkSourceAccounts_returns (t : AssetType) (a : R.crypto.Fp)
    (l : List (R.Account × AssetValue)) :
    ((ledgerOf R t).checkSourceAccounts s a l).Returns ↔
      (t = .ft ∨ t = .pft → ∃ id, FungibleId s a id) := by
  have hft : (FTTransferLedger.checkSourceAccounts R s a l).Returns ↔ ∃ id, FungibleId s a id := by
    simp only [FTTransferLedger.checkSourceAccounts, Exec.bind_returns,
      FTTransferLedger.fungibleId_returns, Exec.lift_returns, implies_true, and_true]
  have hnft : (NFTTransferLedger.checkSourceAccounts R s a l).Returns := by
    rw [NFTTransferLedger.checkSourceAccounts_eq]
    exact Exec.ok_returns l
  exact AssetType.iff_of_fungible (motive := fun t => ((ledgerOf R t).checkSourceAccounts
    s a l).Returns) hft hft hnft hnft t

theorem Pallet.checkSinkAccounts_returns (t : AssetType) (a : R.crypto.Fp)
    (l : List (R.Account × AssetValue)) :
    ((ledgerOf R t).checkSinkAccounts s a l).Returns ↔
      (t = .ft ∨ t = .pft → ∃ id, FungibleId s a id) := by
  have hft : (FTTransferLedger.checkSinkAccounts R s a l).Returns ↔ ∃ id, FungibleId s a id := by
    simp only [FTTransferLedger.checkSinkAccounts, Exec.bind_returns,
      FTTransferLedger.fungibleId_returns, Exec.lift_returns, implies_true, and_true]
  have hnft : (NFTTransferLedger.checkSinkAccounts R s a l).Returns := by
    rw [NFTTransferLedger.checkSinkAccounts_eq]
    exact Exec.ok_returns l
  exact AssetType.iff_of_fungible (motive := fun t => ((ledgerOf R t).checkSinkAccounts
    s a l).Returns) hft hft hnft hnft t

section Lawful
variable (hR : R.Lawful)
include hR

theorem toDispatchError_isSome (e : TransferPostError R) :
    (toDispatchError e).isSome ↔ ∀ e', e ≠ .unexpectedError e' := by
  rw [toDispatchError, Option.isSome_map, TransferPostError.toError_isSome hR.stack]

/-- The account checks return unless the token of the post is unknown. -/
theorem checkPublicParticipants_returns (hq : q.Proper post.body) (t : AssetType) :
    (Exec.convertErr toDispatchError (checkPublicParticipants (Pallet.ledgerOf R t) s post.body
      q.sources q.sinks)).Returns ↔
      ((post.body.assetId.isSome ↔ post.body.sources ≠ [] ∨ post.body.sinks ≠ []) →
        t = .ft ∨ t = .pft → ∀ a, post.body.assetId = some a → ∃ id, FungibleId s a id) := by
  have hshape : (toDispatchError (R := R) .invalidShape).isSome :=
    (toDispatchError_isSome hR _).mpr (by simp)
  have hsource : ∀ e, (toDispatchError (R := R) (.invalidSourceAccount e)).isSome :=
    fun e => (toDispatchError_isSome hR _).mpr (by simp)
  have hsink : ∀ e, (toDispatchError (R := R) (.invalidSinkAccount e)).isSome :=
    fun e => (toDispatchError_isSome hR _).mpr (by simp)
  have hlen : q.sources.length = post.body.sources.length :=
    hq.accounts.1.trans hq.sources.symm
  have hlen' : q.sinks.length = post.body.sinks.length := hq.accounts.2.trans hq.sinks.symm
  simp only [checkPublicParticipants, Exec.convertErr_bind, Exec.bind_returns,
    Exec.convertErr_eq_ok, Exec.ensure_eq_ok, Exec.ensure_convertErr_returns hshape, true_and,
    hlen, hlen', forall_const]
  refine forall_congr' fun hid => ?_
  cases ha : post.body.assetId with
  | none => simp [Exec.convertErr]
  | some a =>
    have hsources : (Exec.convertErr toDispatchError
        (Exec.mapErr TransferPostError.invalidSourceAccount
          ((Pallet.ledgerOf R t).checkSourceAccounts s a
            (q.sources.zip post.body.sources)))).Returns ↔
        (t = .ft ∨ t = .pft → ∃ id, FungibleId s a id) := by
      rw [Exec.convertErr_mapErr, Exec.convertErr_returns_of_isSome hsource]
      exact Pallet.checkSourceAccounts_returns t a _
    have hsinks : (Exec.convertErr toDispatchError (Exec.mapErr TransferPostError.invalidSinkAccount
        ((Pallet.ledgerOf R t).checkSinkAccounts s a (q.sinks.zip post.body.sinks)))).Returns ↔
        (t = .ft ∨ t = .pft → ∃ id, FungibleId s a id) := by
      rw [Exec.convertErr_mapErr, Exec.convertErr_returns_of_isSome hsink]
      exact Pallet.checkSinkAccounts_returns t a _
    have hany : post.body.sources ≠ [] ∨ post.body.sinks ≠ [] := hid.mp (by simp [ha])
    have hpure : ∀ x : List (R.Account × AssetValue) × List (R.Account × AssetValue),
        (Exec.convertErr (toDispatchError (R := R)) (pure x)).Returns := fun x => Exec.ok_returns x
    simp only [Exec.convertErr_bind, Exec.bind_returns, hpure, implies_true, and_true,
      Option.some.injEq, forall_eq']
    by_cases hso : post.body.sources = []
    · have hsi : post.body.sinks ≠ [] := hany.resolve_left (not_not.mpr hso)
      simp only [hso, if_true, hsi, if_false, hsinks]
      constructor
      · rintro ⟨_, h⟩
        exact h [] rfl
      · intro h
        exact ⟨Exec.ok_returns _, fun _ _ => h⟩
    · simp only [hso, if_false, hsources]
      constructor
      · exact And.left
      · intro h
        refine ⟨h, fun so _ => ?_⟩
        by_cases hsi : post.body.sinks = []
        · rw [if_pos hsi]
          exact Exec.ok_returns _
        · rw [if_neg hsi]
          exact hsinks.mpr h

omit hR in
/-- A refusal that is always converted. -/
theorem lift_mapError_returns {ε α : Type} {f : ε → TransferPostError R}
    (hf : ∀ e, (toDispatchError (f e)).isSome) (x : Except ε α) :
    (Exec.convertErr toDispatchError (Exec.lift (x.mapError f))).Returns := by
  cases x with
  | ok a => exact Exec.ok_returns a
  | error e =>
    obtain ⟨e', he⟩ := Option.isSome_iff_exists.mp (hf e)
    simp [Exec.convertErr, Exec.lift, Except.mapError, he]

/-- The answer of the proof system is converted, unless it is an error. -/
theorem isValid_returns (hq : q.Proper post.body)
    (hchk : Checked (Pallet.ledgerOf R q.assetType) s post q.sources q.sinks) :
    (Exec.convertErr toDispatchError (Exec.mapErr TransferLedgerError.toTransferPostError
      ((Pallet.ledgerOf R q.assetType).isValid (postingKey post q.sources q.sinks)))).Returns ↔
        ∀ e, q.answer post ≠ some (.error e) := by
  have hrefused : (toDispatchError (R := R) .invalidProof).isSome :=
    (toDispatchError_isSome hR _).mpr (by simp)
  obtain ⟨event, answer, ha, he⟩ := Posting.isValid_eq hR hq hchk
  rw [ha, he, Exec.convertErr_mapErr, Exec.convertErr_returns]
  match answer with
  | .ok true => simp [verdict]
  | .ok false => simp [verdict, TransferLedgerError.toTransferPostError, hrefused]
  | .error e =>
    have hnone : toDispatchError (R := R) (.unexpectedError (.proofSystemError e)) = none := by
      simp [toDispatchError, TransferPostError.toError_unexpectedError]
    simp [verdict, TransferLedgerError.toTransferPostError, hnone]

/-- Every refusal of `validate` is converted, unless the proof system itself failed. -/
theorem validate_returns (hq : q.Proper post.body) :
    (Exec.convertErr toDispatchError (validate (Pallet.ledgerOf R q.assetType) s post q.sources
      q.sinks)).Returns ↔ ¬ q.Unresolved s post ∧
      (Checked (Pallet.ledgerOf R q.assetType) s post q.sources q.sinks →
        ∀ e, q.answer post ≠ some (.error e)) := by
  have hconv : ∀ e : TransferPostError R, (∀ e', e ≠ .unexpectedError e') →
      (toDispatchError e).isSome := fun e => (toDispatchError_isSome hR e).mpr
  have hL := Pallet.ledgerOf_passesAccounts (R := R) q.assetType
  have hsender : ∀ {α : Type} (x : Except (SenderPostError SenderLedgerError) α),
      (Exec.convertErr toDispatchError
        (Exec.lift (x.mapError (TransferPostError.sender (R := R))))).Returns :=
    lift_mapError_returns fun e => hconv _ (by simp)
  have hreceiver : ∀ {α : Type} (x : Except (ReceiverPostError (ReceiverLedgerError R.crypto)) α),
      (Exec.convertErr toDispatchError
        (Exec.lift (x.mapError (TransferPostError.receiver (R := R))))).Returns :=
    lift_mapError_returns fun e => hconv _ (by simp)
  have hsig := hconv .invalidAuthorizationSignature (by simp)
  have hspend := hconv .duplicateSpend (by simp)
  have hmint := hconv .duplicateMint (by simp)
  have hpure : ∀ x : TransferPostingKey R × PreprocessedEvent R.Account,
      (Exec.convertErr (toDispatchError (R := R)) (pure x)).Returns := fun x => Exec.ok_returns x
  simp only [validate, Exec.convertErr_bind, Exec.bind_returns, Exec.convertErr_eq_ok,
    Exec.ensure_eq_ok, Exec.ensure_convertErr_returns hsig, true_and, forall_const,
    checkPublicParticipants_returns hR hq, checkPublicParticipants_eq_ok hL, and_imp, forall_eq,
    Exec.ensure_convertErr_returns hspend,
    Exec.ensure_convertErr_returns hmint, hsender, hreceiver, Exec.lift_eq_ok,
    Exec.except_mapError_eq_ok, hpure, implies_true, and_true,
    Exec.except_mapM_self (f := validateSender s) fun x y h => (validateSender_eq_ok.mp h).1,
    Exec.except_mapM_self (f := validateReceiver s) fun x y h => (validateReceiver_eq_ok.mp h).1]
  constructor
  · intro h
    constructor
    · intro hu
      obtain ⟨a, ha, hno⟩ := hu.unknown
      obtain ⟨id, hid⟩ := (h hu.signature).1 hu.assetId hu.fungible a ha
      exact hno id hid
    · intro hchk
      exact (isValid_returns hR hq hchk).mp <|
        (h hchk.signature).2 hchk.participants hchk.fresh.unrelated
        hchk.fresh.distinct
        (fun x hx => validateSender_eq_ok.mpr
          ⟨rfl, hchk.fresh.matching x hx, hchk.fresh.unspent x hx⟩)
        (fun x hx => validateReceiver_eq_ok.mpr ⟨rfl, hchk.fresh.unregistered x hx⟩)
  · rintro ⟨hu, hp⟩ hsignature
    constructor
    · intro hid hft a ha
      by_contra hno
      exact hu ⟨hsignature, hid, hft, a, ha, not_exists.mp hno⟩
    · intro hpart hun hdis hse hre
      have hchk : Checked (Pallet.ledgerOf R q.assetType) s post q.sources q.sinks :=
        ⟨hsignature, hpart, hun, hdis, fun x hx => (validateSender_eq_ok.mp (hse x hx)).2.1,
          fun x hx => (validateSender_eq_ok.mp (hse x hx)).2.2,
          fun x hx => (validateReceiver_eq_ok.mp (hre x hx)).2⟩
      exact (isValid_returns hR hq hchk).mpr (hp hchk)

theorem updatePublic_returns (hq : q.Proper post.body)
    (h : Checked (Pallet.ledgerOf R q.assetType) s post q.sources q.sinks) {p : PayStorage} :
    (updatePublic (Pallet.ledgerOf R q.assetType) (postingKey post q.sources q.sinks)
      { s with pay := p }).1.Returns ↔
      ∀ a, post.body.assetId = some a → Settles s post.body a q.assetType := by
  cases ha : post.body.assetId with
  | none =>
    simp only [updatePublic, postingKey, ha]
    simp
  | some a =>
    simp only [Option.some.injEq, forall_eq']
    rw [← Pallet.settles_iff (p := p) hR hq h ha]
    simp only [updatePublic, postingKey, ha]
    constructor
    · intro hret
      exact Pallet.updatePublicBalances_infallible q.assetType _ hret
    · rintro ⟨u, s', hok⟩
      rw [hok]
      exact Exec.ok_returns u

/-- What a refusal by the ledger itself is converted to. -/
def fromLedgerError (e : TransferLedgerError R) : Option DispatchError :=
  toDispatchError e.toTransferPostError

omit hR in
theorem zoom_convertErr_returns {α ε : Type} {get : State R → α} {set : State R → α → State R}
    {f : ε → TransferLedgerError R} {x : Tx α ε PUnit} (hf : ∀ e, (fromLedgerError (f e)).isSome)
    (hx : (x (get s)).1.Returns) :
    (Tx.convertErr fromLedgerError (Tx.zoom get set f x) s).1.Returns := by
  rw [Tx.convertErr, Tx.zoom, Exec.convertErr_mapErr, Exec.convertErr_returns_of_isSome hf]
  exact hx

/-- The ledger writes return, and the move of public values does if the values settle. -/
theorem postKey_returns (hq : q.Proper post.body)
    (h : Checked (Pallet.ledgerOf R q.assetType) s post q.sources q.sinks) :
    (Tx.convertErr fromLedgerError (postKey (Pallet.ledgerOf R q.assetType)
        (postingKey post q.sources q.sinks)) s).1.Returns ↔
      (ProxyLedger.HasRoom s.pay (entries post.body) →
        ∀ a, post.body.assetId = some a → Settles s post.body a q.assetType) := by
  have hspend : ∀ t : State R, (Tx.convertErr (fromLedgerError (R := R))
      (Tx.zoom State.pay (fun s pay => { s with pay }) TransferLedgerError.senderLedgerError
        (ProxyLedger.spendAll (spends post.body))) t).1.Returns := by
    intro t
    obtain ⟨u, p', hp⟩ := ProxyLedger.spendAll_total hR.crypto (spends post.body) t.pay
    refine zoom_convertErr_returns (fun e => (toDispatchError_isSome hR _).mpr (by
      simp [TransferLedgerError.toTransferPostError])) ?_
    rw [hp]
    exact Exec.ok_returns u
  have hregister : ∀ t : State R, (Tx.convertErr (fromLedgerError (R := R))
      (Tx.zoom State.pay (fun s pay => { s with pay }) TransferLedgerError.receiverLedgerError
        (ProxyLedger.registerAll (entries post.body))) t).1.Returns := fun t =>
    zoom_convertErr_returns (fun e => (toDispatchError_isSome hR _).mpr (by
      simp [TransferLedgerError.toTransferPostError])) (ProxyLedger.registerAll_returns _ _)
  have hinf : (updatePublic (Pallet.ledgerOf R q.assetType)
      (postingKey post q.sources q.sinks)).Infallible := by
    unfold updatePublic
    split
    · exact .pure _
    · exact Pallet.updatePublicBalances_infallible q.assetType
  rw [← writes_iff hR.crypto]
  simp only [postKey, Tx.convertErr_bind, Tx.bind_run_returns]
  constructor
  · rintro ⟨_, hrest⟩ ⟨p', p₁, h₁, h₂⟩
    obtain ⟨_, hrest'⟩ :=
      hrest ⟨⟩ _ (Tx.convertErr_run_ok.mpr (Tx.zoom_run_ok.mpr ⟨p₁, h₁, rfl⟩))
    have hu := hrest' ⟨⟩ _ (Tx.convertErr_run_ok.mpr (Tx.zoom_run_ok.mpr ⟨p', h₂, rfl⟩))
    exact (updatePublic_returns hR hq h).mp (hinf.convertErr_returns.mp hu)
  · intro hset
    refine ⟨hspend s, fun _ s₁ hs => ⟨hregister s₁, fun _ s₂ hr => hinf.convertErr_returns.mpr ?_⟩⟩
    obtain ⟨p₁, h₁, rfl⟩ := Tx.zoom_run_ok.mp (Tx.convertErr_run_ok.mp hs)
    obtain ⟨p', h₂, rfl⟩ := Tx.zoom_run_ok.mp (Tx.convertErr_run_ok.mp hr)
    exact (updatePublic_returns hR hq h).mpr (hset ⟨p', p₁, h₁, h₂⟩)

/-- A post returns exactly if its checks do and, where they pass, its writes do. -/
theorem post_returns (hq : q.Proper post.body) :
    (Tx.convertErr toDispatchError (TransferLedger.post (Pallet.ledgerOf R q.assetType) post
      q.sources q.sinks) s).1.Returns ↔ ¬ q.Halts s post := by
  have hL := Pallet.ledgerOf_passesAccounts (R := R) q.assetType
  have hvalidate := validate_returns hR (s := s) hq
  have hzoom : (Tx.convertErr toDispatchError (Tx.zoom id (fun _ s => s)
      TransferLedgerError.toTransferPostError (postKey (Pallet.ledgerOf R q.assetType)
        (postingKey post q.sources q.sinks))) s).1 =
      (Tx.convertErr fromLedgerError (postKey (Pallet.ledgerOf R q.assetType)
        (postingKey post q.sources q.sinks)) s).1 := Exec.convertErr_mapErr
  simp only [TransferLedger.post, Tx.convertErr_bind]
  rw [Tx.bind_run_returns]
  constructor
  · rintro ⟨hval, hrest⟩ hhalt
    obtain ⟨hresolved, hproof⟩ := hvalidate.mp hval
    rcases hhalt with hu | ⟨hchk, ⟨e, he⟩ | ⟨htrue, hroom, a, ha, hset⟩⟩
    · exact hresolved hu
    · exact hproof hchk e he
    · obtain ⟨event, answer, hans, hvalid⟩ := Posting.isValid_eq hR hq hchk
      obtain rfl := Option.some.inj (htrue.symm.trans hans)
      have hok := (validate_eq_ok hL).mpr ⟨rfl, hchk, hvalid⟩
      have hret := hrest _ s (Tx.convertErr_run_ok.mpr (by rw [Tx.read_run, hok]))
      have hkey := (Tx.bind_run_returns.mp hret).1
      rw [hzoom] at hkey
      exact hset ((postKey_returns hR hq hchk).mp hkey hroom a ha)
  · intro hhalt
    have hval := hvalidate.mpr ⟨fun hu => hhalt (.inl hu),
      fun hchk e he => hhalt (.inr ⟨hchk, .inl ⟨e, he⟩⟩)⟩
    refine ⟨hval, fun x s₁ hx => ?_⟩
    obtain ⟨key, event⟩ := x
    have hx' := Tx.convertErr_run_ok.mp hx
    obtain ⟨hok, rfl⟩ := Prod.mk.inj hx'
    obtain ⟨rfl, hchk, hvalid⟩ := (validate_eq_ok hL).mp hok
    obtain ⟨event', answer, hans, hvalid'⟩ := Posting.isValid_eq hR hq hchk
    have htrue : q.answer post = some (.ok true) := by
      rw [hvalid'] at hvalid
      rcases answer with e | _ | _
      · cases hvalid
      · cases hvalid
      · exact hans
    rw [Tx.bind_run_returns]
    refine ⟨?_, fun _ _ _ => Exec.ok_returns _⟩
    rw [hzoom]
    refine (postKey_returns hR hq hchk).mpr fun hroom a ha => ?_
    by_contra hset
    exact hhalt (.inr ⟨hchk, .inr ⟨htrue, hroom, a, ha, hset⟩⟩)

/-- A posting call returns unless its post halts. -/
theorem Call.returns_iff (hq : call.posting o.account = some q) :
    (call.dispatch (.signed o) s).1.Returns ↔
      ¬ (call.Guard s ∧ ∃ post, q.post.tryInto = .ok post ∧ q.Halts s post) := by
  have hpost : (Pallet.postTransaction q.origin q.sources q.sinks q.post q.assetType s).1.Returns ↔
      ∀ post, q.post.tryInto = .ok post → (Tx.convertErr toDispatchError
        (TransferLedger.post (Pallet.ledgerOf R q.assetType) post q.sources q.sinks)
          s).1.Returns := by
    simp only [Pallet.postTransaction, Tx.read_bind_returns, Exec.lift_returns, true_and,
      Exec.lift_eq_ok, Exec.except_mapError_eq_ok]
    refine forall₂_congr fun post _ => ?_
    rw [Tx.bind_run_returns]
    exact and_iff_left fun _ _ _ => Exec.ok_returns _
  rw [Call.dispatch_returns hq, hpost]
  constructor
  · rintro h ⟨hg, post, hd, hhalt⟩
    exact (post_returns hR (Call.guard_proper hq hg hd)).mp (h hg post hd) hhalt
  · intro h hg post hd
    refine (post_returns hR (Call.guard_proper hq hg hd)).mpr fun hhalt => ?_
    exact h ⟨hg, post, hd, hhalt⟩

end Lawful
end Returns

end ZkNft
