import ZkNft.MantaPay.Payments

/-! What an indexer learns from the deposited events: together with the metadata of the registry
they tell every payment, so the public balances can be rebuilt from them. -/

namespace ZkNft
open TransferLedger

variable {R : Runtime}

/-- The metadata of the asset that an event names. -/
def Asset.metadata (asset : Asset) (s : State R) : Option (AssetStorageMetadata R.Account) :=
  (idFromField asset.id).bind s.registry.get

/-- A public transfer moves the token its id names, a post the token of the metadata. -/
def Event.payments (s : State R) (token : StandardAssetId) : Event R.Account → List (Payment R)
  | .transfer asset source sink =>
    if idFromField asset.id = some token ∧
        (asset.metadata s).any AssetStorageMetadata.isFungible = true then
      [⟨source, sink, (assetValueDecode asset.value).toNat⟩]
    else []
  | .toPrivate asset source =>
    if (asset.metadata s).bind AssetStorageMetadata.getFungibleId = some token then
      [⟨source, R.palletAccount, (assetValueDecode asset.value).toNat⟩]
    else []
  | .toPublic asset sink =>
    if (asset.metadata s).bind AssetStorageMetadata.getFungibleId = some token then
      [⟨R.palletAccount, sink, (assetValueDecode asset.value).toNat⟩]
    else []
  | .privateTransfer _ => []

/-- The asset of an event is registered. -/
def Event.Known (s : State R) : Event R.Account → Prop
  | .transfer asset _ _ | .toPrivate asset _ | .toPublic asset _ => (asset.metadata s).isSome = true
  | .privateTransfer _ => True

section Metadata
variable {s s' : State R} {e : Event R.Account}

theorem Asset.metadata_keep {asset : Asset} (hk : s.KeepsMetadata s')
    (h : (asset.metadata s).isSome = true) : asset.metadata s' = asset.metadata s := by
  obtain ⟨md, hmd⟩ := Option.isSome_iff_exists.mp h
  obtain ⟨id, hid, hget⟩ := Option.bind_eq_some_iff.mp hmd
  rw [hmd, Asset.metadata, hid, Option.bind_some, hk id md hget]

theorem Event.payments_keep (hk : s.KeepsMetadata s') (h : e.Known s) (token : StandardAssetId) :
    e.payments s' token = e.payments s token := by
  cases e with
  | transfer asset source sink => simp only [Event.payments, Asset.metadata_keep hk h]
  | toPrivate asset source => simp only [Event.payments, Asset.metadata_keep hk h]
  | toPublic asset sink => simp only [Event.payments, Asset.metadata_keep hk h]
  | privateTransfer origin => rfl

theorem Event.Known.keep (hk : s.KeepsMetadata s') (h : e.Known s) : e.Known s' := by
  cases e with
  | transfer asset source sink => exact (congrArg Option.isSome (Asset.metadata_keep hk h)).trans h
  | toPrivate asset source => exact (congrArg Option.isSome (Asset.metadata_keep hk h)).trans h
  | toPublic asset sink => exact (congrArg Option.isSome (Asset.metadata_keep hk h)).trans h
  | privateTransfer origin => trivial

end Metadata

section Step
variable {s s' : State R} {m : Move R} {o : Signer R} {call : Call R} {q : Posting R}
  {post : Config.TransferPost R.crypto.toFields}

/-- The event of an accepted post. -/
theorem Call.dispatch_event (hR : R.Lawful) (hq : call.posting o.account = some q)
    (h : call.dispatch (.signed o) s = (.ok ⟨⟩, s')) :
    call.Guard s ∧ ∃ post event, Posted q s s' post ∧ q.Proper post.body ∧
      (postingKey post q.sources q.sinks).shape = some q.shape ∧
      (postingKey post q.sources q.sinks).Tells event ∧
      s'.events = s.events ++ [event.convert q.origin] := by
  obtain ⟨hg, post, hp⟩ := Call.dispatch_posted hq h
  have hproper := Call.guard_proper hq hg hp.decoded
  obtain ⟨hshape, hpublic⟩ := hp.checked.shape hR.crypto hproper.toCounts
  obtain ⟨answer, ha⟩ :=
    proofAnswer_total hR.crypto q.shape (postingKey post q.sources q.sinks)
  obtain ⟨event, htells, heq⟩ := Pallet.isValid_eq hR.crypto q.assetType hshape hpublic ha
  refine ⟨hg, post, event, hp, hproper, hshape, htells, ?_⟩
  obtain ⟨-, hpost⟩ := (Call.dispatch_ok hq).mp h
  obtain ⟨post', event', s₁, hd, hrun, hs'⟩ := Pallet.postTransaction_run_ok.mp hpost
  obtain rfl := Except.ok.inj (hd.symm.trans hp.decoded)
  obtain ⟨-, hval, -⟩ := (post_run_ok (Pallet.ledgerOf_passesAccounts q.assetType)).mp hrun
  have hevent : event' = event := by
    rw [heq] at hval
    cases answer with
    | error e => cases hval
    | ok accepted =>
      cases accepted with
      | false => cases hval
      | true => exact (Exec.ok.inj hval).symm
  obtain ⟨e, he⟩ := hp.events
  have hsplit : s₁.events ++ [event'.convert q.origin] = s.events ++ [e] := by
    rw [← he, hs']
  obtain ⟨hpre, -⟩ := List.append_inj' hsplit rfl
  rw [hs', hpre, hevent]

/-- The asset of the event of a post is the asset of the post. -/
theorem Asset.metadata_of_post {asset : Asset} {a : R.crypto.Fp}
    (ha : post.body.assetId = some a) (henc : fpEncode a = .ok asset.id) :
    asset.metadata s = s.metadataOf post := by
  rw [State.metadataOf, assetKey, ha, Option.bind_some, henc]
  rfl

/-- The event of an accepted post tells its payments. -/
theorem Event.payments_of_tells (hproper : q.Proper post.body) {event : PreprocessedEvent R.Account}
    (hshape : (postingKey post q.sources q.sinks).shape = some q.shape)
    (h : (postingKey post q.sources q.sinks).Tells event) (token : StandardAssetId) :
    (event.convert q.origin).payments s token =
      if s.tokenOf post = some token then q.payments post else [] := by
  have hso := hproper.sources
  have hsi := hproper.sinks
  cases event with
  | toPrivate asset source =>
    obtain ⟨⟨a, ha, henc⟩, hone⟩ := h
    have hsources : q.sources.zip post.body.sources = [(source, assetValueDecode asset.value)] :=
      hone
    have hsinks : q.sinks.zip post.body.sinks = [] := by
      cases hq : q.shape with
      | toPrivate =>
        rw [hq] at hsi
        rw [List.length_eq_zero_iff.mp hsi, List.zip_nil_right]
      | privateTransfer | toPublic =>
        rw [hq] at hso
        rw [List.length_eq_zero_iff.mp hso, List.zip_nil_right] at hsources
        cases hsources
    simp only [PreprocessedEvent.convert, Event.payments, Asset.metadata_of_post ha henc,
      State.tokenOf, Posting.payments, hsources, hsinks, List.map_cons, List.map_nil,
      List.append_nil]
  | privateTransfer =>
    obtain hq : q.shape = .privateTransfer := Option.some.inj (hshape.symm.trans h)
    rw [hq] at hso hsi
    simp only [PreprocessedEvent.convert, Event.payments, Posting.payments,
      List.length_eq_zero_iff.mp hso, List.length_eq_zero_iff.mp hsi, List.zip_nil_right,
      List.map_nil, List.append_nil, ite_self]
  | toPublic asset sink =>
    obtain ⟨⟨a, ha, henc⟩, hone⟩ := h
    have hsinks : q.sinks.zip post.body.sinks = [(sink, assetValueDecode asset.value)] := hone
    have hsources : q.sources.zip post.body.sources = [] := by
      cases hq : q.shape with
      | toPublic =>
        rw [hq] at hso
        rw [List.length_eq_zero_iff.mp hso, List.zip_nil_right]
      | privateTransfer | toPrivate =>
        rw [hq] at hsi
        rw [List.length_eq_zero_iff.mp hsi, List.zip_nil_right] at hsinks
        cases hsinks
    simp only [PreprocessedEvent.convert, Event.payments, Asset.metadata_of_post ha henc,
      State.tokenOf, Posting.payments, hsources, hsinks, List.map_cons, List.map_nil,
      List.nil_append]

/-- The asset of a public value is registered. -/
theorem Paid.registered {a : R.crypto.Fp} (h : Paid s s' post.body)
    (ha : post.body.assetId = some a) : (s.metadataOf post).isSome = true := by
  have hsome : ∀ {a md}, post.body.assetId = some a → getMetadata s a = .ok md →
      (s.metadataOf post).isSome = true := by
    intro a md ha hmd
    rw [State.metadataOf_eq ha hmd]
    rfl
  cases h with
  | reshape hid =>
    rw [ha] at hid
    cases hid
  | mintToken hid hfun | redeemToken hid hfun =>
    obtain ⟨md, hmd, -⟩ := hfun
    exact hsome hid hmd
  | mintItem hid hitem | redeemItem hid hitem =>
    obtain ⟨md, hmd, -⟩ := hitem
    exact hsome hid hmd

theorem Event.known_of_tells (hpaid : Paid s s' post.body)
    {event : PreprocessedEvent R.Account}
    (h : (postingKey post q.sources q.sinks).Tells event) :
    (event.convert q.origin).Known s := by
  cases event with
  | privateTransfer => trivial
  | toPrivate asset x =>
    obtain ⟨⟨a, ha, henc⟩, -⟩ := h
    exact (congrArg Option.isSome (Asset.metadata_of_post ha henc)).trans (hpaid.registered ha)
  | toPublic asset x =>
    obtain ⟨⟨a, ha, henc⟩, -⟩ := h
    exact (congrArg Option.isSome (Asset.metadata_of_post ha henc)).trans (hpaid.registered ha)

/-- Other pallets write no events of MantaPay and change no registered metadata. -/
def Move.Logged (s : State R) : Move R → Prop
  | .call _ _ => True
  | .other s' => s'.events = s.events ∧ s.KeepsMetadata s'

/-- The events of a move tell its payments. -/
structure Telling (s : State R) (m : Move R) (es : List (Event R.Account)) : Prop where
  events : (m.next s).events = s.events ++ es
  known : ∀ e ∈ es, e.Known s
  payments : ∀ token, es.flatMap (Event.payments s token) = m.payments token s
  keeps : s.KeepsMetadata (m.next s)

theorem State.KeepsMetadata.of_registry (h : s'.registry = s.registry) : s.KeepsMetadata s' := by
  intro id md hmd
  rw [h]
  exact hmd

theorem Telling.none (hevents : (m.next s).events = s.events) (hk : s.KeepsMetadata (m.next s))
    (hpay : ∀ token, m.payments token s = []) : Telling s m [] where
  events := by rw [hevents, List.append_nil]
  known _ he := by cases he
  payments token := (hpay token).symm
  keeps := hk

theorem Telling.one {e : Event R.Account} (hevents : (m.next s).events = s.events ++ [e])
    (hreg : (m.next s).registry = s.registry) (hknown : e.Known s)
    (hpay : ∀ token, e.payments s token = m.payments token s) : Telling s m [e] where
  events := hevents
  known e' he' := by
    rw [List.mem_singleton.mp he']
    exact hknown
  payments token := by rw [List.flatMap_singleton, hpay]
  keeps := .of_registry hreg

theorem Move.telling (hR : R.Lawful) (hm : m.Logged s) : ∃ es, Telling s m es := by
  cases m with
  | other s' => exact ⟨[], .none hm.1 hm.2 fun token => rfl⟩
  | call origin c =>
    by_cases hfail : ∀ u, (c.dispatch origin s).1 ≠ .ok u
    · have hs : (Move.call origin c).next s = s := Call.dispatch_rollback hfail
      exact ⟨[], .none (congrArg State.events hs) (.of_registry (congrArg State.registry hs))
        fun token => Move.payments_of_fail hfail⟩
    simp only [not_forall, not_not] at hfail
    obtain ⟨⟨⟩, hok⟩ := hfail
    obtain ⟨o, rfl⟩ : ∃ o, origin = .signed o := by
      by_contra hsigned
      rw [Call.dispatch_unsigned fun o ho => hsigned ⟨o, ho⟩] at hok
      cases hok
    have hrun := Tx.run_of_fst hok
    have hpayments : ∀ token, (Move.call (.signed o) c).payments token s =
        c.payments token s o.account := by
      intro token
      simp only [Move.payments, hok]
    cases hq : c.posting o.account with
    | some q =>
      obtain ⟨hg, post, event, hp, hproper, hshape, htells, hevents⟩ :=
        Call.dispatch_event hR hq hrun
      refine ⟨_, .one hevents hp.registry
        (Event.known_of_tells (hp.paid hR hproper) htells) fun token => ?_⟩
      rw [hpayments, Call.payments_of_posting hq, hp.decoded,
        Event.payments_of_tells hproper hshape htells]
      rfl
    | none =>
      cases c with
      | publicTransfer asset sink =>
        obtain ⟨id, md, w, hid, hmd, hs, hmove⟩ := Pallet.publicTransfer_run_ok hrun
        have hasset : asset.metadata s = some md := by
          rw [Asset.metadata, hid, Option.bind_some, hmd]
        have hreg : ((Move.call (.signed o) (.publicTransfer asset sink)).next s).registry =
            s.registry := (congrArg State.registry hs).trans rfl
        refine ⟨_, .one (congrArg State.events hs) hreg (congrArg Option.isSome hasset)
          fun token => ?_⟩
        rw [hpayments, Event.payments, Call.payments, hasset, hid]
        by_cases ht : id = token
        · rw [ht] at hmd
          rw [hmd]
        · simp only [Option.some.injEq, ht, false_and, if_false]
      | toPrivate t post => cases hq
      | toPublic t post => cases hq
      | privateTransfer t post => cases hq
      | privateTransferAsset id t zk post => cases hq

end Step

section Runs
variable {s₀ s : State R} {tr : History R}

/-- The events of a history tell its payments. -/
structure Logbook (s₀ s : State R) (tr : History R) (es : List (Event R.Account)) : Prop where
  events : s.events = s₀.events ++ es
  known : ∀ e ∈ es, e.Known s
  payments : ∀ token, es.flatMap (Event.payments s token) = ZkNft.payments token tr

theorem Logbook.step {m : Move R} {es es' : List (Event R.Account)} (h : Logbook s₀ s tr es)
    (hm : Telling s m es') : Logbook s₀ (m.next s) (tr ++ [(s, m)]) (es ++ es') where
  events := by rw [hm.events, h.events, List.append_assoc]
  known e he := by
    rcases List.mem_append.mp he with he | he
    · exact (h.known e he).keep hm.keeps
    · exact (hm.known e he).keep hm.keeps
  payments token := by
    have hkeep : ∀ l : List (Event R.Account), (∀ e ∈ l, e.Known s) →
        l.flatMap (Event.payments (m.next s) token) = l.flatMap (Event.payments s token) :=
      fun l hl => List.flatMap_congr fun e he => Event.payments_keep hm.keeps (hl e he) token
    rw [List.flatMap_append, hkeep es h.known, hkeep es' hm.known, h.payments, hm.payments]
    simp [ZkNft.payments]

theorem run_logbook (hR : R.Lawful) (h : Run Move.next Move.Logged s₀ tr s) :
    ∃ es, Logbook s₀ s tr es := by
  induction h with
  | nil => exact ⟨[], (List.append_nil _).symm, by simp, fun token => rfl⟩
  | snoc _ hm ih =>
    obtain ⟨es, hes⟩ := ih
    obtain ⟨es', hes'⟩ := Move.telling hR hm
    exact ⟨es ++ es', hes.step hes'⟩

/-- The events deposited in a history and the metadata at its end tell every payment, so the
balances are those at its start and the payments that the events name. -/
theorem events_tell_balances (hR : R.Lawful) (h : Run Move.next Move.Logged s₀ tr s) :
    ∃ es, s.events = s₀.events ++ es ∧
      (∀ token, es.flatMap (Event.payments s token) = payments token tr) ∧
      ∀ token x, (s.balance token x : ℤ) = s₀.balance token x +
        netFlow x (es.flatMap (Event.payments s token)) + outside token x tr := by
  obtain ⟨es, hes⟩ := run_logbook hR h
  refine ⟨es, hes.events, hes.payments, fun token x => ?_⟩
  rw [hes.payments]
  exact run_balance hR h token x

end Runs

section Witness
open Sample

theorem logged_history : Run Move.next Move.Logged start history final := by
  refine Run.play fun x hx => ?_
  obtain ⟨origin, call, heq⟩ := moves_calls (mem_of_trace hx)
  rw [heq]
  trivial

theorem events_tell_balances_sample :
    ∃ es, final.events = start.events ++ es ∧
      (∀ token, es.flatMap (Event.payments final token) = payments token history) ∧
      ∀ token x, (final.balance token x : ℤ) = start.balance token x +
        netFlow x (es.flatMap (Event.payments final token)) + outside token x history :=
  events_tell_balances runtime_lawful logged_history

end Witness

end ZkNft
