import ZkNft.MantaPay.Posting

/-! The calls that post a transfer, in one form: guards on the arguments, then the post. -/

namespace ZkNft

variable {R : Runtime}

namespace FTTransferLedger
variable {s : State R} {a : R.crypto.Fp} {l l' : List (R.Account × AssetValue)}

theorem fungibleId_eq_ok {ε : Type} {id : StandardAssetId} :
    (fungibleId R s a : Exec ε StandardAssetId) = .ok id ↔
      ∃ metadata, getMetadata s a = .ok metadata ∧ metadata.getFungibleId = some id := by
  simp only [fungibleId, Exec.bind_eq_ok, Exec.expectOk_eq_ok, Exec.expect_eq_ok]

theorem checkSourceAccounts_eq_ok :
    checkSourceAccounts R s a l = .ok l' ↔ l' = l ∧
      ∃ id, (fungibleId R s a : Exec Unit _) = .ok id ∧ ∀ x ∈ l, R.ValidId id ∧
        x.2 ≤ (R.token id).reducibleBalance s.world x.1 true := by
  simp only [checkSourceAccounts, Exec.bind_eq_ok, Exec.lift_eq_ok, fungibleId_eq_ok]
  rw [← exists_and_left]
  refine exists_congr fun id => ?_
  rw [and_left_comm]
  refine and_congr_right fun _ => Exec.except_mapM_check ?_
  rintro ⟨account, withdraw⟩ y
  have hiff := @Frame.canWithdraw_eq_ok R.toFrame s.world id id account withdraw
  split
  next i h =>
    have := (Frame.canWithdraw_eq_ok.mp h).1
    simp_all [eq_comm]
  next e h => simp_all

theorem checkSinkAccounts_eq_ok :
    checkSinkAccounts R s a l = .ok l' ↔ l' = l ∧
      ∃ id, (fungibleId R s a : Exec Unit _) = .ok id ∧ ∀ x ∈ l, R.ValidId id ∧
        (R.token id).canDeposit s.world x.1 x.2 false = .success := by
  simp only [checkSinkAccounts, Exec.bind_eq_ok, Exec.lift_eq_ok, fungibleId_eq_ok]
  rw [← exists_and_left]
  refine exists_congr fun id => ?_
  rw [and_left_comm]
  refine and_congr_right fun _ => Exec.except_mapM_check ?_
  rintro ⟨account, deposit⟩ y
  have hiff := @Frame.canDeposit_eq_ok R.toFrame s.world id id account deposit
  split
  next i h =>
    have := (Frame.canDeposit_eq_ok.mp h).1
    simp_all [eq_comm]
  next e h => simp_all

theorem passesAccounts : (ledger R).PassesAccounts where
  source _ _ _ _ h := (checkSourceAccounts_eq_ok.mp h).1
  sink _ _ _ _ h := (checkSinkAccounts_eq_ok.mp h).1

end FTTransferLedger

namespace NFTTransferLedger

theorem mapM_ok {α ε : Type} (l : List α) : l.mapM (fun x => (.ok x : Except ε α)) = .ok l :=
  (Exec.except_mapM_self fun _ _ h => (Except.ok.inj h).symm).mpr ⟨rfl, fun _ _ => rfl⟩

/-- The source accounts are accepted whoever they are. -/
theorem checkSourceAccounts_eq (s : State R) (a : R.crypto.Fp) (l : List (R.Account × AssetValue)) :
    checkSourceAccounts R s a l = .ok l := by
  rw [checkSourceAccounts, mapM_ok]
  rfl

theorem checkSinkAccounts_eq (s : State R) (a : R.crypto.Fp) (l : List (R.Account × AssetValue)) :
    checkSinkAccounts R s a l = .ok l := by
  rw [checkSinkAccounts, mapM_ok]
  rfl

theorem passesAccounts : (ledger R).PassesAccounts where
  source s a l l' h := by
    rw [show (ledger R).checkSourceAccounts s a l = .ok l from checkSourceAccounts_eq s a l] at h
    exact (Exec.ok.inj h).symm
  sink s a l l' h := by
    rw [show (ledger R).checkSinkAccounts s a l = .ok l from checkSinkAccounts_eq s a l] at h
    exact (Exec.ok.inj h).symm

end NFTTransferLedger

theorem Pallet.ledgerOf_passesAccounts (t : AssetType) : (ledgerOf R t).PassesAccounts := by
  cases t with
  | ft => exact FTTransferLedger.passesAccounts
  | pft => exact FTTransferLedger.passesAccounts
  | nft => exact NFTTransferLedger.passesAccounts
  | sbt => exact NFTTransferLedger.passesAccounts

/-- The post a call hands to a ledger, with the accounts of its public values and the origin of
its event. -/
structure Posting (R : Runtime) where
  assetType : AssetType
  shape : TransferShape
  origin : Option R.Account
  sources : List R.Account
  sinks : List R.Account
  post : TransferPost

def Call.posting (origin : R.Account) : Call R → Option (Posting R)
  | .toPrivate t post => some ⟨t, .toPrivate, none, [origin], [], post⟩
  | .toPublic t post => some ⟨t, .toPublic, none, [], [origin], post⟩
  | .privateTransfer t post => some ⟨t, .privateTransfer, some origin, [], [], post⟩
  | .privateTransferAsset _ t _ post => some ⟨t, .privateTransfer, some origin, [], [], post⟩
  | .publicTransfer _ _ => none

/-- The numbers of sources, senders, receivers and sinks of a shape. -/
def TransferShape.counts : TransferShape → ℕ × ℕ × ℕ × ℕ
  | .toPrivate => (1, 0, 1, 0)
  | .privateTransfer => (0, 2, 2, 0)
  | .toPublic => (0, 2, 1, 1)

/-- What a call checks before it posts. -/
def Call.Guard (s : State R) : Call R → Prop
  | .toPrivate _ post =>
    Pallet.HasShape post 1 0 1 0 ∧ ∀ source ∈ post.sources, assetValueDecode source > 0
  | .toPublic _ post =>
    Pallet.HasShape post 0 2 1 1 ∧ ∀ sink ∈ post.sinks, assetValueDecode sink > 0
  | .privateTransfer _ post => Pallet.HasShape post 0 2 2 0
  | .privateTransferAsset assetId _ zkAddress post => Pallet.HasShape post 0 2 2 0 ∧
    ∃ metadata, s.registry.get assetId = some metadata ∧
      metadata.getOriginZkaddress = some zkAddress ∧ metadata.getOriginAccount.isSome
  | .publicTransfer _ _ => False

section Inversion
variable {s s' : State R} {o : Signer R} {call : Call R} {q : Posting R}

theorem Pallet.postTransaction_run_ok {u : PUnit} {origin : Option R.Account}
    {sources sinks : List R.Account} {post : TransferPost} {t : AssetType} :
    postTransaction origin sources sinks post t s = (.ok u, s') ↔
      ∃ body event s₁, post.tryInto (F := R.crypto.toFields) = .ok body ∧
        (ledgerOf R t).post body sources sinks s = (.ok event, s₁) ∧
        s' = { s₁ with events := s₁.events ++ [event.convert origin] } := by
  simp only [postTransaction, Tx.read_bind_ok, Exec.lift_eq_ok, Exec.except_mapError_eq_ok]
  constructor
  · rintro ⟨body, hb, h⟩
    obtain ⟨event, s₁, hp, h⟩ := Tx.bind_run_ok.mp h
    exact ⟨body, event, s₁, hb, Tx.convertErr_run_ok.mp hp, Tx.modify_ok.mp h⟩
  · rintro ⟨body, event, s₁, hb, hp, rfl⟩
    exact ⟨body, hb, Tx.bind_run_ok.mpr ⟨event, s₁, Tx.convertErr_run_ok.mpr hp, rfl⟩⟩

/-- A posting call is its guards followed by its post. -/
theorem Call.dispatch_ok (hq : call.posting o.account = some q) {u : PUnit} :
    call.dispatch (.signed o) s = (.ok u, s') ↔ call.Guard s ∧
      Pallet.postTransaction q.origin q.sources q.sinks q.post q.assetType s = (.ok u, s') := by
  cases call with
  | publicTransfer asset sink => cases hq
  | toPrivate t post =>
    obtain rfl := Option.some.inj hq
    simp only [Call.dispatch, Pallet.toPrivate, Tx.transactional_run_ok, Tx.read_bind_ok,
      ensureSigned, Exec.ok.injEq, exists_eq_left', Pallet.ensure, Exec.ensure_eq_ok,
      exists_const, Call.Guard, and_assoc]
  | toPublic t post =>
    obtain rfl := Option.some.inj hq
    simp only [Call.dispatch, Pallet.toPublic, Tx.transactional_run_ok, Tx.read_bind_ok,
      ensureSigned, Exec.ok.injEq, exists_eq_left', Pallet.ensure, Exec.ensure_eq_ok,
      exists_const, Call.Guard, and_assoc]
  | privateTransfer t post =>
    obtain rfl := Option.some.inj hq
    simp only [Call.dispatch, Pallet.privateTransfer, Tx.transactional_run_ok, Tx.read_bind_ok,
      ensureSigned, Exec.ok.injEq, exists_eq_left', Pallet.ensure, Exec.ensure_eq_ok,
      exists_const, Call.Guard]
  | privateTransferAsset id t zk post =>
    obtain rfl := Option.some.inj hq
    simp only [Call.dispatch, Pallet.privateTransferAsset, Tx.transactional_run_ok,
      Tx.read_bind_ok, ensureSigned, Exec.ok.injEq, exists_eq_left', Pallet.ensure,
      Exec.ensure_eq_ok, exists_const, Call.Guard, Exec.okOr_eq_ok]
    constructor
    · rintro ⟨hs, md, hmd, z, hz, rfl, a, ha, h⟩
      exact ⟨⟨hs, md, hmd, hz, ha ▸ rfl⟩, h⟩
    · rintro ⟨⟨hs, md, hmd, hz, ha⟩, h⟩
      obtain ⟨a, ha⟩ := Option.isSome_iff_exists.mp ha
      exact ⟨hs, md, hmd, zk, hz, rfl, a, ha, h⟩

theorem Call.dispatch_returns (hq : call.posting o.account = some q) :
    (call.dispatch (.signed o) s).1.Returns ↔ (call.Guard s →
      (Pallet.postTransaction q.origin q.sources q.sinks q.post q.assetType s).1.Returns) := by
  cases call with
  | publicTransfer asset sink => cases hq
  | toPrivate t post =>
    obtain rfl := Option.some.inj hq
    simp only [Call.dispatch, Pallet.toPrivate, Tx.transactional_returns, Tx.read_bind_returns,
      ensureSigned, Exec.ok.injEq, forall_eq', Pallet.ensure, Exec.ensure_eq_ok,
      Exec.ok_returns, Exec.ensure_returns, true_and, forall_const, Call.Guard, and_imp]
  | toPublic t post =>
    obtain rfl := Option.some.inj hq
    simp only [Call.dispatch, Pallet.toPublic, Tx.transactional_returns, Tx.read_bind_returns,
      ensureSigned, Exec.ok.injEq, forall_eq', Pallet.ensure, Exec.ensure_eq_ok,
      Exec.ok_returns, Exec.ensure_returns, true_and, forall_const, Call.Guard, and_imp]
  | privateTransfer t post =>
    obtain rfl := Option.some.inj hq
    simp only [Call.dispatch, Pallet.privateTransfer, Tx.transactional_returns,
      Tx.read_bind_returns, ensureSigned, Exec.ok.injEq, forall_eq', Pallet.ensure,
      Exec.ensure_eq_ok, Exec.ok_returns, Exec.ensure_returns, true_and, forall_const, Call.Guard]
  | privateTransferAsset id t zk post =>
    obtain rfl := Option.some.inj hq
    simp only [Call.dispatch, Pallet.privateTransferAsset, Tx.transactional_returns,
      Tx.read_bind_returns, ensureSigned, Exec.ok.injEq, forall_eq', Pallet.ensure,
      Exec.ensure_eq_ok, Exec.ok_returns, Exec.ensure_returns, Exec.okOr_returns, true_and,
      forall_const, Call.Guard, Exec.okOr_eq_ok]
    constructor
    · rintro h ⟨hs, md, hmd, hz, ha⟩
      obtain ⟨a, ha⟩ := Option.isSome_iff_exists.mp ha
      exact h hs md hmd zk hz rfl a ha
    · rintro h hs md hmd z hz rfl a ha
      exact h ⟨hs, md, hmd, hz, ha ▸ rfl⟩

theorem Call.guard_shape (hq : call.posting o.account = some q) (h : call.Guard s) :
    Pallet.HasShape q.post q.shape.counts.1 q.shape.counts.2.1 q.shape.counts.2.2.1
      q.shape.counts.2.2.2 := by
  cases call with
  | publicTransfer asset sink => cases hq
  | toPrivate t post =>
    obtain rfl := Option.some.inj hq
    exact h.1
  | toPublic t post =>
    obtain rfl := Option.some.inj hq
    exact h.1
  | privateTransfer t post =>
    obtain rfl := Option.some.inj hq
    exact h
  | privateTransferAsset id t zk post =>
    obtain rfl := Option.some.inj hq
    exact h.1

end Inversion

end ZkNft
