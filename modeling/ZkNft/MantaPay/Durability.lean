import ZkNft.MantaPay.Authorization
import ZkNft.MantaPay.Registration

/-! How long an accepted post stays acceptable: until another post takes one of its nullifiers or
UTXOs, or fills the shards it goes to. -/

namespace ZkNft
open TransferLedger ProxyLedger

variable {R : Runtime}

/-- The two posts spend one nullifier or register one UTXO. -/
def Conflicts (b b' : Config.TransferPostBody R.crypto.toFields) : Prop :=
  (∃ x ∈ b.senderPosts, ∃ y ∈ b'.senderPosts, x.nullifier.commitment = y.nullifier.commitment) ∨
    ∃ x ∈ b.receiverPosts, ∃ y ∈ b'.receiverPosts, x.utxo = y.utxo

theorem Conflicts.symm {b b' : Config.TransferPostBody R.crypto.toFields} (h : Conflicts b b') :
    Conflicts b' b := by
  rcases h with ⟨x, hx, y, hy, he⟩ | ⟨x, hx, y, hy, he⟩
  · exact .inl ⟨y, hy, x, hx, he.symm⟩
  · exact .inr ⟨y, hy, x, hx, he.symm⟩

section Spent
variable {c : Crypto} {p p' : PayStorage}

theorem ProxyLedger.spendLoop_spent {index i j : ℕ}
    {es : List (c.Fp × Config.Nullifier c.toFields)}
    (h : spendLoop index i es p = (.ok j, p')) (b : Bytes 32) :
    p'.nullifierCommitmentSet.containsKey b = true ↔
      p.nullifierCommitmentSet.containsKey b = true ∨
        ∃ e ∈ es, fpEncode e.2.commitment = .ok b := by
  induction es generalizing i p with
  | nil =>
    obtain ⟨-, rfl⟩ := Tx.pure_ok.mp h
    simp
  | cons e es ih =>
    simp only [spendLoop, Tx.read_bind_ok, Tx.modify_bind_ok, Exec.lift_eq_ok,
      Exec.except_mapError_eq_ok] at h
    obtain ⟨x, hx, note, -, h⟩ := h
    rw [ih h, StorageMap.containsKey_insert, List.exists_mem_cons_iff, hx, Except.ok.injEq,
      @eq_comm _ b x]
    tauto

/-- `spend_all` marks the nullifiers it is given, and no others. -/
theorem ProxyLedger.spendAll_spent {es : List (c.Fp × Config.Nullifier c.toFields)} {u : PUnit}
    (h : spendAll es p = (.ok u, p')) (b : Bytes 32) :
    p'.nullifierCommitmentSet.containsKey b = true ↔
      p.nullifierCommitmentSet.containsKey b = true ∨
        ∃ e ∈ es, fpEncode e.2.commitment = .ok b := by
  simp only [spendAll, Tx.read_bind_ok] at h
  obtain ⟨index, -, h⟩ := h
  obtain ⟨j, p₁, hloop, h⟩ := Tx.bind_run_ok.mp h
  rw [← spendLoop_spent hloop]
  split_ifs at h
  · obtain rfl := Tx.modify_ok.mp h
    exact Iff.rfl
  · obtain ⟨-, rfl⟩ := Tx.pure_ok.mp h
    exact Iff.rfl

end Spent

/-- `p'` is `p` after the posts `bodies`: their nullifiers are spent, their UTXOs registered, and
no accumulator output is forgotten. -/
structure Took (p p' : PayStorage) (bodies : List (Config.TransferPostBody R.crypto.toFields)) :
    Prop where
  spent : ∀ b, p'.nullifierCommitmentSet.containsKey b = true ↔
    p.nullifierCommitmentSet.containsKey b = true ∨
      ∃ body ∈ bodies, ∃ x ∈ body.senderPosts,
        fpEncode (F := R.crypto.toFields) x.nullifier.commitment = .ok b
  registered : ∀ u, p'.utxoSet.containsKey u = true ↔ p.utxoSet.containsKey u = true ∨
    ∃ body ∈ bodies, ∃ x ∈ body.receiverPosts, Utxo.tryFrom x.utxo = .ok u
  outputs : ∀ b, p.utxoAccumulatorOutputs.containsKey b = true →
    p'.utxoAccumulatorOutputs.containsKey b = true

namespace Took
variable {p p₁ p' : PayStorage} {body : Config.TransferPostBody R.crypto.toFields}
  {bodies bodies' : List (Config.TransferPostBody R.crypto.toFields)}

theorem refl (p : PayStorage) : Took (R := R) p p [] where
  spent b := by simp
  registered u := by simp
  outputs b h := h

theorem trans (h : Took p p₁ bodies) (h' : Took p₁ p' bodies') : Took p p' (bodies ++ bodies') where
  spent b := by
    rw [h'.spent, h.spent, or_assoc]
    simp only [List.mem_append, or_and_right, exists_or]
  registered u := by
    rw [h'.registered, h.registered, or_assoc]
    simp only [List.mem_append, or_and_right, exists_or]
  outputs b hb := h'.outputs b (h.outputs b hb)

/-- The ledger writes of one post. -/
theorem of_writes (hc : R.crypto.Lawful) (h : Writes body p p') : Took p p' [body] := by
  obtain ⟨model, hm⟩ := loadModel_total hc
  obtain ⟨itemHash, hk⟩ := loadItemHash_total hc
  obtain ⟨happ, hout⟩ := writes_appended hc hm hk h
  obtain ⟨p₁, hspend, hregister⟩ := h
  constructor
  · intro b
    rw [(registerAll_sameNullifiers hregister).nullifierCommitmentSet, spendAll_spent hspend]
    simp [spends]
  · intro u
    rw [happ.utxoSet]
    simp [TransferLedger.entries]
  · intro b hb
    exact (hout b).mpr (.inl hb)

/-- A fresh post stays fresh unless it conflicts with one of the posts taken. -/
theorem fresh_iff (hc : R.crypto.Lawful) (h : Took p p' bodies) (hf : Fresh p body) :
    Fresh p' body ↔ ∀ b ∈ bodies, ¬ Conflicts b body := by
  constructor
  · rintro hf' b hb (⟨x, hx, y, hy, he⟩ | ⟨x, hx, y, hy, he⟩)
    · obtain ⟨-, e, hen, hfree⟩ := isUnspent_eq_ok.mp (hf'.unspent y hy)
      rw [← he] at hen
      rw [(h.spent e).mpr (.inr ⟨b, hb, x, hx, hen⟩)] at hfree
      cases hfree
    · obtain ⟨-, u, hen, hfree⟩ := isNotRegistered_eq_ok.mp (hf'.unregistered y hy)
      rw [← he] at hen
      rw [(h.registered u).mpr (.inr ⟨b, hb, x, hx, hen⟩)] at hfree
      cases hfree
  · intro hno
    refine ⟨hf.unrelated, hf.distinct, ?_, ?_, ?_⟩
    · intro x hx
      have hmatch := hf.matching x hx
      simp only [hasMatchingUtxoAccumulatorOutput, Exec.except_bind_eq_ok,
        Exec.except_mapError_eq_ok] at hmatch ⊢
      obtain ⟨b, hb, hmatch⟩ := hmatch
      refine ⟨b, hb, ?_⟩
      split_ifs at hmatch with hkey
      exact if_pos (hkey.imp_right (h.outputs b))
    · intro x hx
      obtain ⟨-, e, hen, hfree⟩ := isUnspent_eq_ok.mp (hf.unspent x hx)
      refine isUnspent_eq_ok.mpr ⟨rfl, e, hen, ?_⟩
      rw [← Bool.not_eq_true] at hfree ⊢
      rw [h.spent]
      rintro (hin | ⟨b, hb, y, hy, hen'⟩)
      · exact hfree hin
      · exact hno b hb (.inl ⟨y, hy, x, hx, fpEncode_inj hc hen' hen⟩)
    · intro x hx
      obtain ⟨-, u, hen, hfree⟩ := isNotRegistered_eq_ok.mp (hf.unregistered x hx)
      refine isNotRegistered_eq_ok.mpr ⟨rfl, u, hen, ?_⟩
      rw [← Bool.not_eq_true] at hfree ⊢
      rw [h.registered]
      rintro (hin | ⟨b, hb, y, hy, hen'⟩)
      · exact hfree hin
      · exact hno b hb (.inr ⟨y, hy, x, hx, Utxo.tryFrom_inj hc hen' hen⟩)

end Took

section Runs
variable {s s' : State R} {tr : History R} {o : Signer R} {call : Call R} {q : Posting R}
  {post : Config.TransferPost R.crypto.toFields}

theorem Move.accepted_eq_some (hq : call.posting o.account = some q) :
    (Move.call (.signed o) call).accepted s = some post ↔
      (∃ u s₁, call.dispatch (.signed o) s = (.ok u, s₁)) ∧ q.post.tryInto = .ok post := by
  have hdecoded : (q.post.tryInto (F := R.crypto.toFields)).toOption = some post ↔
      q.post.tryInto = .ok post := by
    cases q.post.tryInto (F := R.crypto.toFields) <;> simp [Except.toOption]
  simp only [Move.accepted, hq, Option.bind_some]
  cases hr : (call.dispatch (.signed o) s).1 with
  | ok u => simp [hdecoded, Prod.ext_iff, hr]
  | err e => simp [Prod.ext_iff, hr]
  | trap e => simp [Prod.ext_iff, hr]

/-- A history leaves its accepted posts in the ledger. -/
theorem run_took (hc : R.crypto.Lawful) (h : Run Move.next Move.Allowed s tr s') :
    Took s.pay s'.pay ((posts tr).map (·.body)) := by
  induction h with
  | nil => exact .refl _
  | @snoc tr s₁ m _ hm ih =>
    rw [posts_append, List.map_append]
    rcases Move.next_pay hm with ⟨hnone, hpay⟩ | ⟨post, hsome, -, hwrites⟩
    · simpa [posts, hnone, hpay] using ih
    · simpa [posts, hsome] using ih.trans (.of_writes hc hwrites)

/-- A post that was admitted is admitted later exactly if the public side takes it then, its
shards have room, and no post accepted in between conflicts with it. -/
theorem Posting.Admits.later_iff (hc : R.crypto.Lawful) (hp : q.Admits s post)
    (h : Run Move.next Move.Allowed s tr s') :
    q.Admits s' post ↔
      (Participants (Pallet.ledgerOf R q.assetType) s' post.body q.sources q.sinks ∧
        ∀ a, post.body.assetId = some a → Settles s' post.body a q.assetType) ∧
      HasRoom s'.pay (entries post.body) ∧ ∀ p ∈ posts tr, ¬ Conflicts p.body post.body := by
  have hfresh := (run_took hc h).fresh_iff hc hp.checked.fresh
  rw [List.forall_mem_map] at hfresh
  constructor
  · intro h'
    exact ⟨⟨h'.checked.participants, h'.settles⟩, h'.room, hfresh.mp h'.checked.fresh⟩
  · rintro ⟨⟨hpart, hset⟩, hroom, hno⟩
    exact ⟨hp.decoded, ⟨hp.checked.signature, hpart, hfresh.mpr hno⟩, hp.proven, hroom, hset⟩

/-- A call whose post was accepted is accepted after any further history exactly if its guard and
the public side hold then, its shards have room, and no post accepted in between conflicts with
it. -/
theorem Call.durable_iff (hR : R.Lawful) (hq : call.posting o.account = some q)
    (h₀ : (Move.call (.signed o) call).accepted s = some post)
    (h : Run Move.next Move.Allowed s tr s') :
    (Move.call (.signed o) call).accepted s' = some post ↔ call.Guard s' ∧
      (Participants (Pallet.ledgerOf R q.assetType) s' post.body q.sources q.sinks ∧
        ∀ a, post.body.assetId = some a → Settles s' post.body a q.assetType) ∧
      HasRoom s'.pay (entries post.body) ∧ ∀ p ∈ posts tr, ¬ Conflicts p.body post.body := by
  obtain ⟨hrun, hd⟩ := (Move.accepted_eq_some hq).mp h₀
  obtain ⟨-, post₀, hp⟩ := (Call.accepted_iff hR hq).mp hrun
  obtain rfl := Except.ok.inj (hp.decoded.symm.trans hd)
  rw [Move.accepted_eq_some hq, Call.accepted_iff hR hq, ← hp.later_iff hR.crypto h]
  constructor
  · rintro ⟨⟨hguard, post', hp'⟩, -⟩
    obtain rfl := Except.ok.inj (hp'.decoded.symm.trans hd)
    exact ⟨hguard, hp'⟩
  · rintro ⟨hguard, hp'⟩
    exact ⟨⟨hguard, _, hp'⟩, hd⟩

end Runs

/-- A private transfer as its sender signs it. -/
structure PrivateOrder (R : Runtime) where
  signer : Signer R
  assetType : AssetType
  post : TransferPost

namespace PrivateOrder

def move (t : PrivateOrder R) : Move R :=
  .call (.signed t.signer) (.privateTransfer t.assetType t.post)

/-- The decoded post is well formed, signed and proven; this is settled whatever the state. -/
structure Sound (t : PrivateOrder R) (body : Config.TransferPost R.crypto.toFields) : Prop where
  shape : Pallet.HasShape t.post 0 2 2 0
  decoded : t.post.tryInto = .ok body
  signature : R.crypto.hasValidAuthorizationSignature body = true
  assetId : body.body.assetId = none
  proven : proofAnswer .privateTransfer (postingKey (R := R) body [] []) = some (.ok true)

variable {s s' : State R} {t : PrivateOrder R} {body : Config.TransferPost R.crypto.toFields}
  {tr : History R}

/-- A private transfer is accepted exactly if it is sound, new to the ledger and has room. -/
theorem accepted_iff (hR : R.Lawful) : t.move.accepted s = some body ↔
    t.Sound body ∧ Fresh s.pay body.body ∧ HasRoom s.pay (entries body.body) := by
  have hq : (Call.privateTransfer t.assetType t.post).posting t.signer.account =
      some ⟨t.assetType, .privateTransfer, some t.signer.account, [], [], t.post⟩ := rfl
  have haccepted := Call.accepted_iff hR (s := s) hq
  rw [move, Move.accepted_eq_some hq, haccepted]
  constructor
  · rintro ⟨⟨hshape, post, hp⟩, hd⟩
    obtain rfl := Except.ok.inj (hp.decoded.symm.trans hd)
    have hcounts := Call.guard_counts (s := s) hq hshape hd
    have hnone := hp.checked.assetId_none rfl hcounts
    exact ⟨⟨hshape, hd, hp.checked.signature, hnone, hp.proven⟩, hp.checked.fresh, hp.room⟩
  · rintro ⟨h, hfresh, hroom⟩
    have hcounts := Call.guard_counts (s := s) hq h.shape h.decoded
    have hsources := List.length_eq_zero_iff.mp hcounts.sources
    have hsinks := List.length_eq_zero_iff.mp hcounts.sinks
    refine ⟨⟨h.shape, body, h.decoded, ⟨h.signature, ?_, hfresh⟩, h.proven, hroom, ?_⟩, h.decoded⟩
    · constructor <;> simp [h.assetId, hsources, hsinks]
    · simp [h.assetId]

/-- An accepted private transfer is accepted after any further history exactly if no post
accepted in between conflicts with it and its shards still have room, whoever hands it in. -/
theorem later_accepted_iff (hR : R.Lawful) (h₀ : t.move.accepted s = some body)
    (h : Run Move.next Move.Allowed s tr s') (signer : Signer R) :
    (move { t with signer }).accepted s' = some body ↔
      HasRoom s'.pay (entries body.body) ∧ ∀ p ∈ posts tr, ¬ Conflicts p.body body.body := by
  obtain ⟨hsound, hfresh, -⟩ := (accepted_iff hR).mp h₀
  have hlater := (run_took hR.crypto h).fresh_iff hR.crypto hfresh
  rw [List.forall_mem_map] at hlater
  rw [accepted_iff hR, hlater]
  constructor
  · rintro ⟨-, hno, hroom⟩
    exact ⟨hroom, hno⟩
  · rintro ⟨hroom, hno⟩
    exact ⟨⟨hsound.shape, hsound.decoded, hsound.signature, hsound.assetId, hsound.proven⟩, hno,
      hroom⟩

end PrivateOrder

namespace Sample

/-- The decoded form of `reshape`. -/
def decodedReshape (nullifier utxo : ℕ) : Config.TransferPost runtime.crypto.toFields :=
  have note : Config.OutgoingNote fields := ⟨Bytes.zero 32, Bytes.zero 64⟩
  have incoming : Config.FullIncomingNote fields :=
    ⟨0, ⟨Bytes.zero 32, Bytes.zero 32, Bytes.zero 32, Bytes.zero 32, Bytes.zero 32⟩,
      ⟨Bytes.zero 32, Bytes.zero 96⟩⟩
  have sender (n : ℕ) : Config.SenderPost fields := ⟨Bytes.zero 32, field n, note⟩
  have receiver (n : ℕ) : Config.ReceiverPost fields :=
    ⟨⟨false, ⟨Bytes.zero 32, 0#128⟩, field n⟩, incoming⟩
  ⟨some ⟨Bytes.zero 32, Bytes.zero 32, Bytes.zero 32⟩, ⟨none, [],
    [sender nullifier, sender (nullifier + 1)], [receiver utxo, receiver (utxo + 1)], [], proof 1⟩⟩

set_option maxRecDepth 10000 in
theorem reshape_decoded (nullifier utxo : ℕ) :
    (reshape nullifier utxo).tryInto (F := runtime.crypto.toFields) =
      .ok (decodedReshape nullifier utxo) := rfl

/-- A pending private transfer with its decoded post. -/
def pendingReshape (k nullifier utxo : ℕ) :
    PrivateOrder runtime × Config.TransferPost runtime.crypto.toFields :=
  (⟨signer k, .ft, reshape nullifier utxo⟩, decodedReshape nullifier utxo)

theorem pendingReshape_accepted {s : State runtime} {k nullifier utxo : ℕ}
    (h : ((Call.privateTransfer .ft (reshape nullifier utxo)).dispatch (.signed (signer k)) s).1 =
      .ok ⟨⟩) :
    (pendingReshape k nullifier utxo).1.move.accepted s = some (decodedReshape nullifier utxo) := by
  have hq : (Call.privateTransfer .ft (reshape nullifier utxo)).posting (signer k).account =
      some ⟨.ft, .privateTransfer, some (signer k).account, [], [], reshape nullifier utxo⟩ := rfl
  rw [pendingReshape, PrivateOrder.move, Move.accepted_eq_some hq]
  exact ⟨⟨⟨⟩, _, Tx.run_of_fst h⟩, reshape_decoded nullifier utxo⟩

end Sample

open Sample in
/-- A private transfer made out before the history of the sample. -/
theorem Call.durable_iff_sample :
    (pendingReshape 2 50 60).1.move.accepted final = some (decodedReshape 50 60) ↔
      Pallet.HasShape (reshape 50 60) 0 2 2 0 ∧
        (Participants (FTTransferLedger.ledger runtime) final (decodedReshape 50 60).body [] [] ∧
          ∀ a, (decodedReshape 50 60).body.assetId = some a →
            Settles final (decodedReshape 50 60).body a .ft) ∧
        HasRoom final.pay (entries (decodedReshape 50 60).body) ∧
        ∀ p ∈ posts history, ¬ Conflicts p.body (decodedReshape 50 60).body := by
  have h₀ : (pendingReshape 2 50 60).1.move.accepted start = some (decodedReshape 50 60) :=
    pendingReshape_accepted (by decide +kernel)
  exact Call.durable_iff runtime_lawful rfl h₀ run_history

end ZkNft
