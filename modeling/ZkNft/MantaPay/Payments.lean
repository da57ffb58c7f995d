import Mathlib.Algebra.Order.BigOperators.Group.List
import ZkNft.MantaPay.Solvency

/-! The public balances over whole histories, as the replay of a list of payments. Each payment is
made by the signer of its call, or by the pallet account to that signer. -/

namespace ZkNft
open TransferLedger

variable {R : Runtime}

/-- A payment of some token. -/
structure Payment (R : Runtime) where
  payer : R.Account
  payee : R.Account
  amount : ℕ

/-- What a payment brings to an account. -/
def Payment.flow (p : Payment R) (x : R.Account) : ℤ :=
  (if p.payee = x then (p.amount : ℤ) else 0) - if p.payer = x then (p.amount : ℤ) else 0

/-- The public values of a post: into the pallet account, and out of it. -/
def Posting.payments (q : Posting R) (post : Config.TransferPost R.crypto.toFields) :
    List (Payment R) :=
  (q.sources.zip post.body.sources).map (fun y => ⟨y.1, R.palletAccount, y.2.toNat⟩) ++
    (q.sinks.zip post.body.sinks).map fun y => ⟨R.palletAccount, y.1, y.2.toNat⟩

/-- The payments of a token that a successful call of `o` makes. -/
def Call.payments (token : StandardAssetId) (s : State R) (o : R.Account) :
    Call R → List (Payment R)
  | .publicTransfer asset sink =>
    if idFromField asset.id = some token ∧
        (s.registry.get token).any AssetStorageMetadata.isFungible = true then
      [⟨o, sink, (assetValueDecode asset.value).toNat⟩]
    else []
  | call =>
    (call.posting o).elim [] fun q => q.post.tryInto.toOption.elim [] fun post =>
      if s.tokenOf post = some token then q.payments post else []

def Move.payments (token : StandardAssetId) (s : State R) : Move R → List (Payment R)
  | .call (.signed o) c =>
    match (c.dispatch (.signed o) s).1 with
    | .ok _ => c.payments token s o.account
    | _ => []
  | _ => []

/-- The payments of a token in a history, in order. -/
def payments (token : StandardAssetId) (tr : History R) : List (Payment R) :=
  tr.flatMap fun x => x.2.payments token x.1

def netFlow (x : R.Account) (ps : List (Payment R)) : ℤ := (ps.map fun p => p.flow x).sum

/-- The balance of an account. -/
def State.balance (s : State R) (token : StandardAssetId) (x : R.Account) : ℕ :=
  ((R.token token).balance s.world x).toNat

/-- What other pallets bring to an account. -/
def Move.outside (token : StandardAssetId) (x : R.Account) (s : State R) : Move R → ℤ
  | .other s' => s'.balance token x - s.balance token x
  | .call _ _ => 0

def outside (token : StandardAssetId) (x : R.Account) (tr : History R) : ℤ :=
  (tr.map fun y => y.2.outside token x y.1).sum

section Step
variable {s s' : State R} {m : Move R} {token : StandardAssetId} {x : R.Account}

theorem Frame.Moved.flow {w w' : R.World} {id : StandardAssetId} {src dst : R.Account} {v : Balance}
    (h : R.Moved w w' id src dst v) (token : StandardAssetId) (x : R.Account) :
    (((R.token token).balance w' x).toNat : ℤ) = ((R.token token).balance w x).toNat +
      if id = token then Payment.flow ⟨src, dst, v.toNat⟩ x else 0 := by
  by_cases ht : id = token
  · subst ht
    rw [if_pos rfl, Payment.flow]
    by_cases hself : src = dst
    · subst hself
      by_cases hx : src = x
      · subst hx
        simp [h.self rfl]
      · simp [hx, h.other id x (.inr ⟨Ne.symm hx, Ne.symm hx⟩)]
    · have hsrc := h.source hself
      have hdst := h.destination hself
      by_cases hx : src = x
      · subst hx
        simp only [if_neg (Ne.symm hself), if_true]
        omega
      · by_cases hx' : dst = x
        · subst hx'
          simp only [if_neg hself, if_true]
          omega
        · simp [hx, hx', h.other id x (.inr ⟨Ne.symm hx, Ne.symm hx'⟩)]
  · simp [ht, h.other token x (.inl (Ne.symm ht))]

section Post
variable {q : Posting R} {post : Config.TransferPost R.crypto.toFields} {a : R.crypto.Fp}
  {id : StandardAssetId}

theorem FTTransferLedger.one_payment {s₁ : State R} {v : AssetValue} (hR : R.Lawful)
    (hreg : s₁.registry = s.registry) (hworld : s₁.world = s.world)
    (ha : post.body.assetId = some a) (htoken : s.tokenOf post = some id)
    (hone : OnePublic q post.body x v)
    (h : FTTransferLedger.updatePublicBalances R a (q.sources.zip post.body.sources)
      (q.sinks.zip post.body.sinks) s₁ = (.ok ⟨⟩, { s₁ with world := s'.world })) :
    ∃ src dst, q.payments post = [⟨src, dst, v.toNat⟩] ∧
      R.Moved s.world s'.world id src dst v := by
  obtain ⟨id', hid, hw⟩ := FTTransferLedger.moved hR hreg hworld hone h
  obtain rfl : id' = id := Option.some.inj ((hid.tokenOf ha).1.symm.trans htoken)
  rcases hw with ⟨hqso, hqsi, hso, hsi, hw⟩ | ⟨hqso, hqsi, hso, hsi, hw⟩
  · refine ⟨x, R.palletAccount, ?_, hw⟩
    rw [Posting.payments, hqso, hqsi, hso, hsi]
    rfl
  · refine ⟨R.palletAccount, x, ?_, hw⟩
    rw [Posting.payments, hqso, hqsi, hso, hsi]
    rfl

/-- An item ledger moves no token. -/
theorem NFTTransferLedger.no_token {s₁ : State R} {v : AssetValue}
    (hreg : s₁.registry = s.registry) (ha : post.body.assetId = some a)
    (hone : OnePublic q post.body x v)
    (h : NFTTransferLedger.updatePublicBalances R a (q.sources.zip post.body.sources)
      (q.sinks.zip post.body.sinks) s₁ = (.ok ⟨⟩, { s₁ with world := s'.world })) :
    s.tokenOf post = none := by
  rcases hone with ⟨hqso, hqsi, hso, hsi⟩ | ⟨hqso, hqsi, hso, hsi⟩
  · rw [hqso, hqsi, hso, hsi] at h
    obtain ⟨c, i, w, hid, -, -⟩ := (updatePublicBalances_one (.inl ⟨rfl, rfl⟩)).mp h
    exact (((NonFungibleId.congr hreg).mp hid).itemOf ha).2
  · rw [hqso, hqsi, hso, hsi] at h
    obtain ⟨c, i, w, hid, -, -⟩ := (updatePublicBalances_one (.inr ⟨rfl, rfl⟩)).mp h
    exact (((NonFungibleId.congr hreg).mp hid).itemOf ha).2

theorem Posted.one_payment (hR : R.Lawful) (h : Posted q s s' post) (hq : q.Proper post.body)
    (htoken : s.tokenOf post = some id) :
    ∃ src dst v, q.payments post = [⟨src, dst, BitVec.toNat v⟩] ∧
      R.Moved s.world s'.world id src dst v := by
  have hbal := h.balances
  cases ha : post.body.assetId with
  | none =>
    rw [State.tokenOf, State.metadataOf_none ha] at htoken
    cases htoken
  | some a =>
    simp only [ha] at hbal
    obtain ⟨s₁, hreg, hworld, hupd⟩ := hbal
    obtain ⟨x, v, -, -, hone⟩ := h.checked.one hq ha
    cases ht : q.assetType with
    | ft =>
      rw [ht] at hupd
      obtain ⟨src, dst, hw⟩ := FTTransferLedger.one_payment hR hreg hworld ha htoken hone hupd
      exact ⟨src, dst, v, hw⟩
    | pft =>
      rw [ht] at hupd
      obtain ⟨src, dst, hw⟩ := FTTransferLedger.one_payment hR hreg hworld ha htoken hone hupd
      exact ⟨src, dst, v, hw⟩
    | nft =>
      rw [ht] at hupd
      rw [NFTTransferLedger.no_token hreg ha hone hupd] at htoken
      cases htoken
    | sbt =>
      rw [ht] at hupd
      rw [NFTTransferLedger.no_token hreg ha hone hupd] at htoken
      cases htoken

theorem Paid.balance_of_none (hR : R.Lawful)
    (h : Paid s s' post.body) (htoken : s.tokenOf post = none) (token : StandardAssetId)
    (x : R.Account) : s'.balance token x = s.balance token x := by
  cases h with
  | reshape hid hw => rw [State.balance, hw, State.balance]
  | mintToken hid hfun | redeemToken hid hfun =>
    rw [(hfun.tokenOf hid).1] at htoken
    cases htoken
  | mintItem _ _ _ _ hw | redeemItem _ _ _ _ _ hw =>
    exact congrArg BitVec.toNat (hR.frame.uniquesTransfer_balance _ _ _ _ _ hw token x)

end Post

@[simp] theorem netFlow_nil (x : R.Account) : netFlow x [] = 0 := rfl

@[simp] theorem netFlow_singleton (p : Payment R) (x : R.Account) : netFlow x [p] = p.flow x := by
  simp [netFlow]

theorem netFlow_append (ps ps' : List (Payment R)) (x : R.Account) :
    netFlow x (ps ++ ps') = netFlow x ps + netFlow x ps' := by
  simp [netFlow]

theorem Call.payments_of_posting {o : R.Account} {call : Call R} {q : Posting R}
    (hq : call.posting o = some q) :
    call.payments token s o = q.post.tryInto.toOption.elim [] fun post =>
      if s.tokenOf post = some token then q.payments post else [] := by
  cases call with
  | publicTransfer asset sink => cases hq
  | _ => simp only [Call.payments, hq, Option.elim_some]

theorem Move.payments_of_fail {origin : Origin R} {call : Call R}
    (h : ∀ u, (call.dispatch origin s).1 ≠ .ok u) :
    (Move.call origin call).payments token s = [] := by
  cases origin with
  | signed o =>
    rw [Move.payments]
    split
    next u hu => exact absurd hu (h u)
    next => rfl
  | root => rfl
  | none => rfl

/-- The balance of an account before and after a move. -/
theorem Move.balance_step (hR : R.Lawful) (s : State R) (m : Move R) (token : StandardAssetId)
    (x : R.Account) : ((m.next s).balance token x : ℤ) =
      s.balance token x + netFlow x (m.payments token s) + m.outside token x s := by
  cases m with
  | other s' =>
    simp only [Move.next, Move.payments, Move.outside, netFlow_nil]
    omega
  | call origin c =>
    by_cases hfail : ∀ u, (c.dispatch origin s).1 ≠ .ok u
    · rw [Move.payments_of_fail hfail, Move.next, Call.dispatch_rollback hfail]
      simp [Move.outside]
    simp only [not_forall, not_not] at hfail
    obtain ⟨⟨⟩, hok⟩ := hfail
    obtain ⟨o, rfl⟩ : ∃ o, origin = .signed o := by
      by_contra hsigned
      rw [Call.dispatch_unsigned fun o ho => hsigned ⟨o, ho⟩] at hok
      cases hok
    have hrun := Tx.run_of_fst hok
    have hpayments : (Move.call (.signed o) c).payments token s =
        c.payments token s o.account := by
      simp only [Move.payments, hok]
    rw [hpayments, Move.outside, add_zero]
    cases hq : c.posting o.account with
    | some q =>
      obtain ⟨hg, post, hp⟩ := Call.dispatch_posted hq hrun
      have hproper := Call.guard_proper hq hg hp.decoded
      rw [Call.payments_of_posting hq, hp.decoded, Except.toOption, Option.elim_some]
      cases htoken : s.tokenOf post with
      | none =>
        have hbal := (hp.paid hR hproper).balance_of_none hR htoken token x
        simp only [Move.next, hbal, reduceCtorEq, if_false, netFlow_nil, add_zero]
      | some id =>
        obtain ⟨src, dst, v, hpay, hw⟩ := hp.one_payment hR hproper htoken
        have hflow := hw.flow token x
        by_cases ht : id = token
        · simp only [ht, if_true, hpay, netFlow_singleton] at hflow ⊢
          exact hflow
        · simp only [Option.some.injEq, ht, if_false, netFlow_nil] at hflow ⊢
          exact hflow
    | none =>
      cases c with
      | publicTransfer asset sink =>
        obtain ⟨id, md, w, hid, hmd, hs, hmove⟩ := Pallet.publicTransfer_run_ok hrun
        have hnext : ((Move.call (.signed o) (.publicTransfer asset sink)).next s).world = w :=
          congrArg State.world hs
        rw [State.balance, hnext]
        rcases hmove with ⟨htoken, -, hw⟩ | ⟨hitem, c, i, -, -, hw⟩
        · have hflow := (hR.frame.transfer_moved _ _ _ _ _ _ hw).flow token x
          by_cases ht : id = token
          · subst ht
            simp only [if_true] at hflow
            simpa [Call.payments, hid, hmd, htoken, State.balance] using hflow
          · simp only [ht, if_false] at hflow
            simpa [Call.payments, hid, ht, State.balance] using hflow
        · have hbal := hR.frame.uniquesTransfer_balance _ _ _ _ _ hw token x
          by_cases ht : id = token
          · subst ht
            simp [Call.payments, hid, hmd, hitem, hbal, State.balance]
          · simp [Call.payments, hid, ht, hbal, State.balance]
      | toPrivate t post => cases hq
      | toPublic t post => cases hq
      | privateTransfer t post => cases hq
      | privateTransferAsset id t zk post => cases hq

/-- A call pays out of its signer's account, or out of the pallet account to its signer. -/
def Payment.OrderedBy (p : Payment R) (o : Signer R) : Prop :=
  p.payer = o.account ∨ p.payer = R.palletAccount ∧ p.payee = o.account

theorem Posting.payments_ordered {o : Signer R} {call : Call R} {q : Posting R}
    {post : Config.TransferPost R.crypto.toFields} {p : Payment R}
    (hq : call.posting o.account = some q) (hp : p ∈ q.payments post) : p.OrderedBy o := by
  have hso : ∀ y ∈ q.sources, y = o.account := by
    cases call with
    | publicTransfer asset sink => cases hq
    | _ =>
      obtain rfl := Option.some.inj hq
      simp
  have hsi : ∀ y ∈ q.sinks, y = o.account := by
    cases call with
    | publicTransfer asset sink => cases hq
    | _ =>
      obtain rfl := Option.some.inj hq
      simp
  rcases List.mem_append.mp hp with hp | hp
  · obtain ⟨y, hy, rfl⟩ := List.mem_map.mp hp
    exact .inl (hso _ (List.of_mem_zip hy).1)
  · obtain ⟨y, hy, rfl⟩ := List.mem_map.mp hp
    exact .inr ⟨rfl, hsi _ (List.of_mem_zip hy).1⟩

theorem Call.payments_ordered {o : Signer R} {call : Call R} {p : Payment R}
    (hp : p ∈ call.payments token s o.account) : p.OrderedBy o := by
  cases hq : call.posting o.account with
  | none =>
    cases call with
    | publicTransfer asset sink =>
      rw [Call.payments] at hp
      split at hp
      · rw [List.mem_singleton.mp hp]
        exact .inl rfl
      · cases hp
    | _ => cases hq
  | some q =>
    rw [Call.payments_of_posting hq] at hp
    cases hpost : q.post.tryInto (F := R.crypto.toFields) with
    | error e =>
      rw [hpost] at hp
      cases hp
    | ok post =>
      rw [hpost, Except.toOption, Option.elim_some] at hp
      split at hp
      · exact Posting.payments_ordered hq hp
      · cases hp

/-- The payments of a move are ordered by the signer of its call. -/
theorem Move.payments_signed {p : Payment R} (hp : p ∈ m.payments token s) :
    ∃ o call, m = .call (.signed o) call ∧ p.OrderedBy o := by
  cases m with
  | other s' => cases hp
  | call origin c =>
    cases origin with
    | root => cases hp
    | none => cases hp
    | signed o =>
      refine ⟨o, c, rfl, ?_⟩
      rw [Move.payments] at hp
      split at hp
      · exact Call.payments_ordered hp
      · cases hp

end Step

section Runs
variable {s₀ s : State R} {tr : History R} {allowed : State R → Move R → Prop}

theorem run_balance (hR : R.Lawful) (h : Run Move.next allowed s₀ tr s) (token : StandardAssetId)
    (x : R.Account) : (s.balance token x : ℤ) =
      s₀.balance token x + netFlow x (payments token tr) + outside token x tr := by
  induction h with
  | nil => simp [payments, outside]
  | @snoc tr s m _ _ ih =>
    have hstep := Move.balance_step hR s m token x
    have hpay : payments token (tr ++ [(s, m)]) = payments token tr ++ m.payments token s := by
      simp [payments]
    have hout : outside token x (tr ++ [(s, m)]) = outside token x tr + m.outside token x s := by
      simp [outside]
    rw [hpay, hout, netFlow_append]
    omega

theorem payments_signed {token : StandardAssetId} {p : Payment R} (hp : p ∈ payments token tr) :
    ∃ y ∈ tr, ∃ o call, y.2 = .call (.signed o) call ∧ p.OrderedBy o := by
  obtain ⟨y, hy, hp⟩ := List.mem_flatMap.mp hp
  exact ⟨y, hy, Move.payments_signed hp⟩

/-- Payments by others take nothing from an account. -/
theorem netFlow_nonneg {x : R.Account} {ps : List (Payment R)} (h : ∀ p ∈ ps, p.payer ≠ x) :
    0 ≤ netFlow x ps := by
  refine List.sum_nonneg ?_
  rintro v hv
  obtain ⟨p, hp, rfl⟩ := List.mem_map.mp hv
  rw [Payment.flow, if_neg (h p hp), sub_zero]
  split <;> omega

/-- Every balance is the replay of the payments: the balance at the start, the payments of the
history, and what other pallets brought. Each payment is ordered by the signer of a call of the
history, out of his own account or out of the pallet account to himself; so an account that signs
nothing loses nothing to MantaPay. -/
theorem balances_replay (hR : R.Lawful) (h : Run Move.next allowed s₀ tr s) :
    (∀ token x, (s.balance token x : ℤ) =
        s₀.balance token x + netFlow x (payments token tr) + outside token x tr) ∧
      (∀ token, ∀ p ∈ payments token tr,
        ∃ y ∈ tr, ∃ o call, y.2 = .call (.signed o) call ∧ p.OrderedBy o) ∧
      ∀ token x, x ≠ R.palletAccount →
        (∀ y ∈ tr, ∀ o call, y.2 = .call (.signed o) call → o.account ≠ x) →
        s₀.balance token x + outside token x tr ≤ (s.balance token x : ℤ) := by
  refine ⟨run_balance hR h, fun token p hp => payments_signed hp, ?_⟩
  intro token x hx hsilent
  have hbal := run_balance hR h token x
  have hflow : 0 ≤ netFlow x (payments token tr) := by
    refine netFlow_nonneg fun p hp => ?_
    obtain ⟨y, hy, o, call, hcall, hpayer | ⟨hpayer, -⟩⟩ := payments_signed hp
    · rw [hpayer]
      exact hsilent y hy o call hcall
    · rw [hpayer]
      exact Ne.symm hx
  omega

end Runs

section Witness
open Sample

theorem balances_replay_sample :
    (∀ token x, (final.balance token x : ℤ) =
        start.balance token x + netFlow x (payments token history) + outside token x history) ∧
      (∀ token, ∀ p ∈ payments token history,
        ∃ y ∈ history, ∃ o call, y.2 = .call (.signed o) call ∧ p.OrderedBy o) ∧
      ∀ token x, x ≠ runtime.palletAccount →
        (∀ y ∈ history, ∀ o call, y.2 = .call (.signed o) call → o.account ≠ x) →
        start.balance token x + outside token x history ≤ (final.balance token x : ℤ) :=
  balances_replay runtime_lawful run_history

end Witness

end ZkNft
