import ZkNft.MantaPay.Admission
import ZkNft.MantaPay.History
import ZkNft.MantaPay.Sample

/-! Who may bring an item into the pool, and who may transfer a soul-bound token inside it. -/

namespace ZkNft
open TransferLedger

variable {R : Runtime} {s : State R} {o : Signer R} {t : AssetType} {post : TransferPost}

/-- The non-fungible ledger accepts whatever accounts come with the public values. -/
theorem NFTTransferLedger.participants {body : Config.TransferPostBody R.crypto.toFields}
    {sources sinks : List R.Account}
    (hid : body.assetId.isSome ↔ body.sources ≠ [] ∨ body.sinks ≠ [])
    (hsources : sources.length = body.sources.length) (hsinks : sinks.length = body.sinks.length) :
    Participants (NFTTransferLedger.ledger R) s body sources sinks where
  assetId := hid
  sources_length := hsources
  sinks_length := hsinks
  source a _ _ := checkSourceAccounts_eq s a _
  sink a _ _ := checkSinkAccounts_eq s a _

section Custody
variable {c i : StandardAssetId}

/-- If `to_private` of an item succeeds, the caller owned it. -/
def MintedByOwner (s : State R) (o : Signer R) (t : AssetType) (post : TransferPost)
    (c i : StandardAssetId) : Prop :=
  (∃ u s', (Call.toPrivate t post).dispatch (.signed o) s = (.ok u, s')) →
    R.uniquesOwner s.world c i = some o.account

/-- What `to_private` looks at: the form of the post, its UTXO, its proof, the room in the shard
and whether the item can move. The owner is not among it. -/
structure MintChecks (s : State R) (o : Signer R) (post : TransferPost) (c i : StandardAssetId)
    (body : Config.TransferPost R.crypto.toFields) : Prop where
  shape : Pallet.HasShape post 1 0 1 0
  value : ∀ source ∈ post.sources, assetValueDecode source > 0
  decoded : post.tryInto = .ok body
  signature : R.crypto.hasValidAuthorizationSignature body = true
  fresh : Fresh s.pay body.body
  proven : proofAnswer .toPrivate (postingKey body [o.account] []) = some (.ok true)
  room : ProxyLedger.HasRoom s.pay (entries body.body)
  movable : R.uniquesCanTransfer s.world c i = true

theorem mint_accepted_iff (hR : R.Lawful) (ht : t = .nft ∨ t = .sbt) {b : Bytes 32}
    (hb : post.assetId = some b) {a : R.crypto.Fp} (ha : fpDecode b.toList = .ok a)
    (hitem : NonFungibleId s a c i) :
    (∃ u s', (Call.toPrivate t post).dispatch (.signed o) s = (.ok u, s')) ↔
      ∃ body, MintChecks s o post c i body := by
  have hledger : Pallet.ledgerOf R t = NFTTransferLedger.ledger R := by
    rcases ht with rfl | rfl <;> rfl
  rw [Call.accepted_iff hR rfl]
  constructor
  · intro ⟨⟨hshape, hvalue⟩, body, h⟩
    have haid := TransferPost.tryInto_assetId h.decoded hb ha
    have hset := h.settles a haid
    have hmove : R.uniquesCanTransfer s.world c i = true := by
      rcases ht with rfl | rfl
      all_goals
        obtain ⟨c', i', hitem', hcan⟩ := hset
        obtain ⟨rfl, rfl⟩ := hitem.unique hitem'
        exact hcan
    exact ⟨body, hshape, hvalue, h.decoded, h.checked.signature, h.checked.fresh, h.proven,
      h.room, hmove⟩
  · intro ⟨body, h⟩
    have haid := TransferPost.tryInto_assetId h.decoded hb ha
    have hq : (Call.toPrivate t post).posting o.account =
        some ⟨t, .toPrivate, none, [o.account], [], post⟩ := rfl
    have hguard : (Call.toPrivate t post).Guard s := ⟨h.shape, h.value⟩
    have hcounts := Call.guard_counts hq hguard h.decoded
    have hsources : body.body.sources.length = 1 := hcounts.sources
    have hsinks : body.body.sinks.length = 0 := hcounts.sinks
    have hpart : Participants (NFTTransferLedger.ledger R) s body.body [o.account] [] := by
      apply NFTTransferLedger.participants
      · have hne : body.body.sources ≠ [] := List.ne_nil_of_length_pos (by omega)
        simp [haid, hne]
      · exact hsources.symm
      · exact hsinks.symm
    refine ⟨⟨h.shape, h.value⟩, body, h.decoded, ?_, h.proven, h.room, ?_⟩
    · rw [hledger]
      exact ⟨h.signature, hpart, h.fresh⟩
    · intro a' ha'
      obtain rfl := Option.some.inj (haid.symm.trans ha')
      rcases ht with rfl | rfl <;> exact ⟨c, i, hitem, h.movable⟩

/-- Only the owner mints an item, unless another check of `to_private` stands in the way. -/
theorem mintedByOwner_iff (hR : R.Lawful) (ht : t = .nft ∨ t = .sbt) {b : Bytes 32}
    (hb : post.assetId = some b) {a : R.crypto.Fp} (ha : fpDecode b.toList = .ok a)
    (hitem : NonFungibleId s a c i) :
    MintedByOwner s o t post c i ↔ R.uniquesOwner s.world c i = some o.account ∨
      ¬ ∃ body, MintChecks s o post c i body := by
  rw [MintedByOwner, mint_accepted_iff hR ht hb ha hitem]
  tauto

open Sample in
theorem mintedByOwner_iff_sample :
    MintedByOwner start (signer 0) .nft (mint 9 5 7) 1 1 ↔
      runtime.uniquesOwner start.world 1 1 = some (signer 0).account ∨
        ¬ ∃ body, MintChecks start (signer 0) (mint 9 5 7) 1 1 body :=
  mintedByOwner_iff runtime_lawful (.inl rfl) rfl (fpDecode_field 9) start_item

open Sample in
/-- Account `2` mints the item of account `1`. -/
theorem mint_by_stranger :
    Reachable start ∧ NonFungibleId start (field 9) 1 1 ∧
      ¬ MintedByOwner start (signer 1) .nft (mint 9 5 7) 1 1 := by
  refine ⟨start_reachable, start_item, fun h => ?_⟩
  have hok : ((Call.toPrivate .nft (mint 9 5 7)).dispatch (.signed (signer 1)) start).1 = .ok ⟨⟩ :=
    by decide +kernel
  have howner := h ⟨⟨⟩, _, Tx.run_of_fst hok⟩
  exact absurd howner (by decide)

end Custody

section SoulBound
variable {call : Call R} {q : Posting R}

/-- The calls that post a private transfer of soul-bound tokens. -/
def Call.TransfersSbt : Call R → Prop
  | .privateTransfer t _ => t = .sbt
  | .privateTransferAsset _ t _ _ => t = .sbt
  | _ => False

/-- The manager recorded in the metadata of the asset id a call names. `private_transfer` names
none: its token, and so the manager of it, is `hidden`. -/
def Call.manager (s : State R) (hidden : Option R.Account) : Call R → Option R.Account
  | .privateTransferAsset assetId _ _ _ =>
    (s.registry.get assetId).bind AssetStorageMetadata.getOriginAccount
  | _ => hidden

/-- The call succeeds for the manager only; for any other account it is refused and changes
nothing. -/
def Call.ManagerOnly (s : State R) (o : Signer R) (manager : Option R.Account) (call : Call R) :
    Prop :=
  ((∃ u s', call.dispatch (.signed o) s = (.ok u, s')) → manager = some o.account) ∧
    (manager ≠ some o.account → ∃ e, call.dispatch (.signed o) s = (.err e, s))

/-- The post passes the checks, and the proof system accepts it for a ledger with room or fails
itself. -/
structure Posting.Passes (q : Posting R) (s : State R)
    (body : Config.TransferPost R.crypto.toFields) : Prop where
  decoded : q.post.tryInto = .ok body
  checked : Checked (Pallet.ledgerOf R q.assetType) s body q.sources q.sinks
  proof : q.answer body = some (.ok true) ∧ ProxyLedger.HasRoom s.pay (entries body.body) ∨
    ∃ e, q.answer body = some (.error e)

/-- Without public values a post has no asset id. -/
theorem TransferLedger.Checked.assetId_none {body : Config.TransferPost R.crypto.toFields}
    (hshape : q.shape = .privateTransfer) (hq : q.Counts body.body) {L : TransferLedger R}
    (h : Checked L s body q.sources q.sinks) : body.body.assetId = none := by
  have hsources := hq.sources
  have hsinks := hq.sinks
  rw [hshape] at hsources hsinks
  have hid := h.participants.assetId
  rw [List.length_eq_zero_iff.mp hsources, List.length_eq_zero_iff.mp hsinks] at hid
  simpa using hid

/-- A private transfer of soul-bound tokens ends in a refusal unless its post passes. -/
theorem Call.sbt_refused_iff (hR : R.Lawful) (hq : call.posting o.account = some q)
    (hsbt : q.assetType = .sbt) (hshape : q.shape = .privateTransfer) :
    (∃ e, call.dispatch (.signed o) s = (.err e, s)) ↔
      ¬ (call.Guard s ∧ ∃ body, q.Passes s body) := by
  have haccepted := Call.accepted_iff hR (s := s) hq
  have hreturns := Call.returns_iff hR (s := s) hq
  constructor
  · intro ⟨e, he⟩ ⟨hg, body, h⟩
    have hcounts := Call.guard_counts hq hg h.decoded
    have hnone := h.checked.assetId_none hshape hcounts
    rcases h.proof with ⟨htrue, hroom⟩ | hfault
    · obtain ⟨u, s', hok⟩ := haccepted.mpr ⟨hg, body, h.decoded, h.checked, htrue, hroom, by
        simp [hnone]⟩
      rw [he] at hok
      cases hok
    · have hret : (call.dispatch (.signed o) s).1.Returns := by
        rw [he]
        exact Exec.err_returns e
      exact hreturns.mp hret ⟨hg, body, h.decoded, .inr ⟨h.checked, .inl hfault⟩⟩
  · intro h
    have hret : (call.dispatch (.signed o) s).1.Returns := by
      refine hreturns.mpr fun ⟨hg, body, hd, hhalt⟩ => ?_
      have hcounts := Call.guard_counts hq hg hd
      rcases hhalt with hu | ⟨hchk, hfault | ⟨htrue, hroom, a, ha, -⟩⟩
      · rcases hu.fungible with hft | hft <;> rw [hsbt] at hft <;> cases hft
      · exact h ⟨hg, body, hd, hchk, .inr hfault⟩
      · rw [hchk.assetId_none hshape hcounts] at ha
        cases ha
    have hfail : ∀ u, (call.dispatch (.signed o) s).1 ≠ .ok u := by
      intro u hok
      obtain ⟨hg, body, hadm⟩ := haccepted.mp ⟨u, _, Prod.ext hok rfl⟩
      exact h ⟨hg, body, hadm.decoded, hadm.checked, .inl ⟨hadm.proven, hadm.room⟩⟩
    rcases Exec.returns_iff.mp hret with ⟨u, hok⟩ | ⟨e, he⟩
    · exact absurd hok (hfail u)
    · exact ⟨e, Prod.ext he (Call.dispatch_rollback hfail)⟩

/-- Private transfers of soul-bound tokens are for the manager only, unless another check stands
in the way of everybody. -/
theorem managerOnly_iff (hR : R.Lawful) (hcall : call.TransfersSbt)
    (hq : call.posting o.account = some q) (hidden : Option R.Account) :
    call.ManagerOnly s o (call.manager s hidden) ↔
      call.manager s hidden = some o.account ∨ ¬ (call.Guard s ∧ ∃ body, q.Passes s body) := by
  have hkind : q.assetType = .sbt ∧ q.shape = .privateTransfer := by
    cases call with
    | privateTransfer t post =>
      obtain rfl := Option.some.inj hq
      exact ⟨hcall, rfl⟩
    | privateTransferAsset id t zk post =>
      obtain rfl := Option.some.inj hq
      exact ⟨hcall, rfl⟩
    | toPrivate t post => exact absurd hcall id
    | toPublic t post => exact absurd hcall id
    | publicTransfer asset sink => exact absurd hcall id
  rw [← Call.sbt_refused_iff hR hq hkind.1 hkind.2]
  constructor
  · intro h
    by_cases hm : call.manager s hidden = some o.account
    · exact .inl hm
    · exact .inr (h.2 hm)
  · rintro (hm | ⟨e, he⟩)
    · exact ⟨fun _ => hm, fun hne => absurd hm hne⟩
    · refine ⟨fun ⟨u, s', hok⟩ => ?_, fun _ => ⟨e, he⟩⟩
      rw [he] at hok
      cases hok

open Sample in
theorem managerOnly_iff_sample :
    (Call.privateTransfer .sbt (reshape 1 7)).ManagerOnly start (signer 1) (some (1 : ℕ)) ↔
      (some 1 : Option ℕ) = some 2 ∨
        ¬ ((Call.privateTransfer .sbt (reshape 1 7)).Guard start ∧ ∃ body, Posting.Passes
          ⟨.sbt, .privateTransfer, some (signer 1).account, [], [], reshape 1 7⟩ start body) :=
  have hcall : (Call.privateTransfer (R := runtime) .sbt (reshape 1 7)).TransfersSbt := rfl
  managerOnly_iff runtime_lawful hcall rfl (some (1 : ℕ))

open Sample in
/-- Account `2` transfers the soul-bound token that account `1` manages, through both calls. -/
theorem transfer_by_stranger :
    Reachable start ∧
      (Call.privateTransferAsset 10 .sbt (Bytes.zero 32) (reshape 1 7)).manager start none =
        some (1 : ℕ) ∧
      ¬ (Call.privateTransferAsset 10 .sbt (Bytes.zero 32) (reshape 1 7)).ManagerOnly start
        (signer 1) (some (1 : ℕ)) ∧
      ¬ (Call.privateTransfer .sbt (reshape 1 7)).ManagerOnly start (signer 1) (some (1 : ℕ)) := by
  have hne : (some 1 : Option ℕ) ≠ some 2 := by decide
  refine ⟨start_reachable, rfl, fun h => ?_, fun h => ?_⟩
  · have hok : ((Call.privateTransferAsset 10 .sbt (Bytes.zero 32) (reshape 1 7)).dispatch
        (.signed (signer 1)) start).1 = .ok ⟨⟩ := by decide +kernel
    exact hne (h.1 ⟨⟨⟩, _, Tx.run_of_fst hok⟩)
  · have hok : ((Call.privateTransfer .sbt (reshape 1 7)).dispatch (.signed (signer 1))
        start).1 = .ok ⟨⟩ := by decide +kernel
    exact hne (h.1 ⟨⟨⟩, _, Tx.run_of_fst hok⟩)

end SoulBound

end ZkNft
