import ZkNft.MantaPay.Batch
import ZkNft.MantaPay.Pallet

/-! What it takes for a post to be accepted, and what an accepted post writes. -/

namespace ZkNft

variable {R : Runtime}

namespace TransferLedger

/-- The account checks pass the accounts and values on as they came. -/
structure PassesAccounts (L : TransferLedger R) : Prop where
  source : ∀ s a l l', L.checkSourceAccounts s a l = .ok l' → l' = l
  sink : ∀ s a l l', L.checkSinkAccounts s a l = .ok l' → l' = l

/-- The posting key of a valid post. -/
def postingKey (post : Config.TransferPost R.crypto.toFields) (sources sinks : List R.Account) :
    TransferPostingKey R :=
  ⟨post.authorizationSignature.map (·.authorizationKey), post.body.assetId,
    sources.zip post.body.sources, post.body.senderPosts, post.body.receiverPosts,
    sinks.zip post.body.sinks, post.body.proof⟩

/-- The public values of a post have accounts that the ledger accepts. -/
structure Participants (L : TransferLedger R) (s : State R)
    (body : Config.TransferPostBody R.crypto.toFields) (sources sinks : List R.Account) : Prop where
  assetId : body.assetId.isSome ↔ body.sources ≠ [] ∨ body.sinks ≠ []
  sources_length : sources.length = body.sources.length
  sinks_length : sinks.length = body.sinks.length
  source : ∀ a, body.assetId = some a → body.sources ≠ [] →
    L.checkSourceAccounts s a (sources.zip body.sources) = .ok (sources.zip body.sources)
  sink : ∀ a, body.assetId = some a → body.sinks ≠ [] →
    L.checkSinkAccounts s a (sinks.zip body.sinks) = .ok (sinks.zip body.sinks)

/-- The nullifiers and UTXOs of a post are new, in the ledger and inside the post. -/
structure Fresh (p : PayStorage) (body : Config.TransferPostBody R.crypto.toFields) : Prop where
  unrelated : body.senderPosts.Pairwise fun x y =>
    ¬ R.crypto.nullifierRelated x.nullifier y.nullifier
  distinct : body.receiverPosts.Pairwise fun x y => ¬ R.crypto.utxoRelated x.utxo y.utxo
  matching : ∀ x ∈ body.senderPosts, ProxyLedger.hasMatchingUtxoAccumulatorOutput (c := R.crypto) p
    x.utxoAccumulatorOutput = .ok x.utxoAccumulatorOutput
  unspent : ∀ x ∈ body.senderPosts,
    ProxyLedger.isUnspent (c := R.crypto) p x.nullifier = .ok x.nullifier
  unregistered : ∀ x ∈ body.receiverPosts,
    ProxyLedger.isNotRegistered (c := R.crypto) p x.utxo = .ok x.utxo

/-- The post passes every check before the proof. -/
structure Checked (L : TransferLedger R) (s : State R)
    (post : Config.TransferPost R.crypto.toFields) (sources sinks : List R.Account) : Prop where
  signature : R.crypto.hasValidAuthorizationSignature post = true
  participants : Participants L s post.body sources sinks
  fresh : Fresh s.pay post.body

variable {L : TransferLedger R} {s s' : State R} {sources sinks : List R.Account}

theorem checkPublicParticipants_eq_ok (hL : L.PassesAccounts)
    {body : Config.TransferPostBody R.crypto.toFields}
    {x : List (R.Account × AssetValue) × List (R.Account × AssetValue)} :
    checkPublicParticipants L s body sources sinks = .ok x ↔
      x = (sources.zip body.sources, sinks.zip body.sinks) ∧
        Participants L s body sources sinks := by
  simp only [checkPublicParticipants, Exec.bind_eq_ok, Exec.ensure_eq_ok, exists_const]
  constructor
  · rintro ⟨hid, hso, hsi, h⟩
    cases ha : body.assetId with
    | none =>
      have hnil : body.sources = [] ∧ body.sinks = [] := by simpa [ha] using hid
      simp only [ha, Exec.pure_eq_ok, Exec.ok.injEq] at h
      refine ⟨by simp [← h, hnil], hid, hso, hsi, ?_, ?_⟩ <;> simp [ha]
    | some a =>
      simp only [ha, Exec.bind_eq_ok] at h
      obtain ⟨so, hsources, si, hsinks, h⟩ := h
      have h₁ : so = sources.zip body.sources ∧ (body.sources ≠ [] →
          L.checkSourceAccounts s a (sources.zip body.sources) = .ok so) := by
        split_ifs at hsources with hn
        · exact ⟨by simpa [hn, eq_comm] using hsources, fun hne => absurd hn hne⟩
        · rw [Exec.mapErr_eq_ok] at hsources
          exact ⟨hL.source _ _ _ _ hsources, fun _ => hsources⟩
      have h₂ : si = sinks.zip body.sinks ∧ (body.sinks ≠ [] →
          L.checkSinkAccounts s a (sinks.zip body.sinks) = .ok si) := by
        split_ifs at hsinks with hn
        · exact ⟨by simpa [hn, eq_comm] using hsinks, fun hne => absurd hn hne⟩
        · rw [Exec.mapErr_eq_ok] at hsinks
          exact ⟨hL.sink _ _ _ _ hsinks, fun _ => hsinks⟩
      obtain ⟨rfl, hcheck⟩ := h₁
      obtain ⟨rfl, hcheck'⟩ := h₂
      refine ⟨(Exec.ok.inj h).symm, hid, hso, hsi, ?_, ?_⟩
      · intro b hb hne
        obtain rfl := Option.some.inj (ha.symm.trans hb)
        exact hcheck hne
      · intro b hb hne
        obtain rfl := Option.some.inj (ha.symm.trans hb)
        exact hcheck' hne
  · rintro ⟨rfl, hp⟩
    refine ⟨hp.assetId, hp.sources_length, hp.sinks_length, ?_⟩
    cases ha : body.assetId with
    | none =>
      have hnil : body.sources = [] ∧ body.sinks = [] := by simpa [ha] using hp.assetId
      simp [hnil]
    | some a =>
      simp only [Exec.bind_eq_ok]
      refine ⟨sources.zip body.sources, ?_, sinks.zip body.sinks, ?_, rfl⟩
      · split_ifs with hn
        · simp [hn]
        · exact Exec.mapErr_eq_ok.mpr (hp.source a ha hn)
      · split_ifs with hn
        · simp [hn]
        · exact Exec.mapErr_eq_ok.mpr (hp.sink a ha hn)

theorem hasMatching_eq {c : Crypto} {p : PayStorage} {x y : c.Fp}
    (h : ProxyLedger.hasMatchingUtxoAccumulatorOutput p x = .ok y) : y = x := by
  simp only [ProxyLedger.hasMatchingUtxoAccumulatorOutput, Exec.except_bind_eq_ok] at h
  obtain ⟨b, -, h⟩ := h
  split_ifs at h
  exact (Except.ok.inj h).symm

theorem isNotRegistered_eq_ok {c : Crypto} {p : PayStorage} {u u' : Config.Utxo c.toFields} :
    ProxyLedger.isNotRegistered p u = .ok u' ↔ u' = u ∧
      ∃ b, Utxo.tryFrom u = .ok b ∧ p.utxoSet.containsKey b = false := by
  simp only [ProxyLedger.isNotRegistered, Exec.except_bind_eq_ok, Exec.except_mapError_eq_ok]
  constructor
  · rintro ⟨b, hb, h⟩
    split_ifs at h with hc
    exact ⟨(Except.ok.inj h).symm, b, hb, by simpa using hc⟩
  · rintro ⟨rfl, b, hb, hc⟩
    exact ⟨b, hb, if_neg (by simp [hc])⟩

theorem validateSender_eq_ok {x y : Config.SenderPost R.crypto.toFields} :
    validateSender s x = .ok y ↔ y = x ∧
      ProxyLedger.hasMatchingUtxoAccumulatorOutput (c := R.crypto) s.pay
        x.utxoAccumulatorOutput = .ok x.utxoAccumulatorOutput ∧
      ProxyLedger.isUnspent (c := R.crypto) s.pay x.nullifier = .ok x.nullifier := by
  simp only [validateSender, Exec.except_bind_eq_ok, Exec.except_mapError_eq_ok]
  constructor
  · rintro ⟨o, ho, n, hn, h⟩
    obtain rfl := hasMatching_eq ho
    obtain rfl := (ProxyLedger.isUnspent_eq_ok.mp hn).1
    exact ⟨(Except.ok.inj h).symm, ho, hn⟩
  · rintro ⟨rfl, ho, hn⟩
    exact ⟨_, ho, _, hn, rfl⟩

theorem validateReceiver_eq_ok {x y : Config.ReceiverPost R.crypto.toFields} :
    validateReceiver s x = .ok y ↔ y = x ∧
      ProxyLedger.isNotRegistered (c := R.crypto) s.pay x.utxo = .ok x.utxo := by
  simp only [validateReceiver, Exec.except_bind_eq_ok, Exec.except_mapError_eq_ok]
  constructor
  · rintro ⟨u, hu, h⟩
    obtain rfl := (isNotRegistered_eq_ok.mp hu).1
    exact ⟨(Except.ok.inj h).symm, hu⟩
  · rintro ⟨rfl, hu⟩
    exact ⟨_, hu, rfl⟩

theorem validate_eq_ok (hL : L.PassesAccounts) {post : Config.TransferPost R.crypto.toFields}
    {key : TransferPostingKey R} {event : PreprocessedEvent R.Account} :
    validate L s post sources sinks = .ok (key, event) ↔
      key = postingKey post sources sinks ∧ Checked L s post sources sinks ∧
        L.isValid key = .ok event := by
  simp only [validate, Exec.bind_eq_ok, Exec.ensure_eq_ok, exists_const,
    checkPublicParticipants_eq_ok hL, Exec.lift_eq_ok, Exec.except_mapError_eq_ok,
    Exec.except_mapM_self (f := validateSender s) fun x y h => (validateSender_eq_ok.mp h).1,
    Exec.except_mapM_self (f := validateReceiver s) fun x y h => (validateReceiver_eq_ok.mp h).1,
    Exec.mapErr_eq_ok]
  constructor
  · rintro ⟨hsig, _, ⟨rfl, hpart⟩, hun, hdis, _, ⟨rfl, hse⟩, _, ⟨rfl, hre⟩, e, hv, h⟩
    obtain ⟨rfl, rfl⟩ := Prod.mk.inj (Exec.ok.inj h)
    exact ⟨rfl, ⟨hsig, hpart, hun, hdis, fun x hx => (validateSender_eq_ok.mp (hse x hx)).2.1,
      fun x hx => (validateSender_eq_ok.mp (hse x hx)).2.2,
      fun x hx => (validateReceiver_eq_ok.mp (hre x hx)).2⟩, hv⟩
  · rintro ⟨rfl, hchk, hv⟩
    exact ⟨hchk.signature, _, ⟨rfl, hchk.participants⟩, hchk.fresh.unrelated,
      hchk.fresh.distinct, _, ⟨rfl, fun x hx => validateSender_eq_ok.mpr
        ⟨rfl, hchk.fresh.matching x hx, hchk.fresh.unspent x hx⟩⟩, _, ⟨rfl, fun x hx =>
          validateReceiver_eq_ok.mpr ⟨rfl, hchk.fresh.unregistered x hx⟩⟩, event, hv, rfl⟩

/-- The nullifiers a post spends. -/
def spends (body : Config.TransferPostBody R.crypto.toFields) :
    List (R.crypto.Fp × Config.Nullifier R.crypto.toFields) :=
  body.senderPosts.map fun x => (x.utxoAccumulatorOutput, x.nullifier)

/-- The UTXOs a post registers, with their notes. -/
def entries (body : Config.TransferPostBody R.crypto.toFields) : List (Entry R.crypto) :=
  body.receiverPosts.map fun x => (x.utxo, x.note)

/-- The nullifiers and UTXOs of a post are written to the ledger. -/
def Writes (body : Config.TransferPostBody R.crypto.toFields) (p p' : PayStorage) : Prop :=
  ∃ p₁, ProxyLedger.spendAll (spends body) p = (.ok ⟨⟩, p₁) ∧
    ProxyLedger.registerAll (entries body) p₁ = (.ok ⟨⟩, p')

/-- The ledger takes a post exactly if its trees have room for it. -/
theorem writes_iff (hc : R.crypto.Lawful) {body : Config.TransferPostBody R.crypto.toFields}
    {p : PayStorage} : (∃ p', Writes body p p') ↔ ProxyLedger.HasRoom p (entries body) := by
  obtain ⟨u, p₁, h₁⟩ := ProxyLedger.spendAll_total hc (spends body) p
  rw [← ProxyLedger.HasRoom.congr (ProxyLedger.spendAll_sameUtxos h₁),
    ← ProxyLedger.registerAll_ok_iff hc]
  constructor
  · intro ⟨p', p₂, h₂, hreg⟩
    obtain rfl := (Prod.mk.inj (h₁.symm.trans h₂)).2
    exact ⟨p', hreg⟩
  · intro ⟨p', hreg⟩
    exact ⟨p', p₁, h₁, hreg⟩

theorem updatePublic_run_ok {post : Config.TransferPost R.crypto.toFields} {u : PUnit} :
    updatePublic L (postingKey post sources sinks) s = (.ok u, s') ↔
      (match post.body.assetId with
        | none => s' = s
        | some a => L.updatePublicBalances a (sources.zip post.body.sources)
            (sinks.zip post.body.sinks) s = (.ok ⟨⟩, s')) := by
  unfold updatePublic
  cases ha : post.body.assetId with
  | none =>
    simp only [postingKey, ha, Tx.pure_ok, true_and]
  | some a => simp only [postingKey, ha]

theorem postKey_run_ok {post : Config.TransferPost R.crypto.toFields} {u : PUnit} :
    postKey L (postingKey post sources sinks) s = (.ok u, s') ↔
      ∃ p', Writes post.body s.pay p' ∧
        (match post.body.assetId with
          | none => s' = { s with pay := p' }
          | some a => L.updatePublicBalances a (sources.zip post.body.sources)
              (sinks.zip post.body.sinks) { s with pay := p' } = (.ok ⟨⟩, s')) := by
  simp only [postKey, Tx.bind_run_ok, Tx.zoom_run_ok, updatePublic_run_ok, Writes]
  constructor
  · rintro ⟨_, _, ⟨p₁, h₁, rfl⟩, _, _, ⟨p₂, h₂, rfl⟩, h⟩
    exact ⟨p₂, ⟨p₁, h₁, h₂⟩, h⟩
  · rintro ⟨p₂, ⟨p₁, h₁, h₂⟩, h⟩
    exact ⟨⟨⟩, _, ⟨p₁, h₁, rfl⟩, ⟨⟩, _, ⟨p₂, h₂, rfl⟩, h⟩

theorem post_run_ok (hL : L.PassesAccounts) {body : Config.TransferPost R.crypto.toFields}
    {event : PreprocessedEvent R.Account} :
    post L body sources sinks s = (.ok event, s') ↔ Checked L s body sources sinks ∧
      L.isValid (postingKey body sources sinks) = .ok event ∧
      postKey L (postingKey body sources sinks) s = (.ok ⟨⟩, s') := by
  simp only [post, Tx.read_bind_ok]
  constructor
  · rintro ⟨⟨key, e⟩, hv, h⟩
    obtain ⟨rfl, hchk, hval⟩ := (validate_eq_ok hL).mp hv
    obtain ⟨_, s₁, h₁, h₂⟩ := Tx.bind_run_ok.mp h
    obtain ⟨rfl, rfl⟩ := Tx.pure_ok.mp h₂
    obtain ⟨s₂, h₁, rfl⟩ := Tx.zoom_run_ok.mp h₁
    exact ⟨hchk, hval, h₁⟩
  · rintro ⟨hchk, hval, h⟩
    exact ⟨_, (validate_eq_ok hL).mpr ⟨rfl, hchk, hval⟩,
      Tx.bind_run_ok.mpr ⟨⟨⟩, s', Tx.zoom_run_ok.mpr ⟨s', h, rfl⟩, rfl⟩⟩

end TransferLedger

end ZkNft
