import ZkNft.Lib.Run
import ZkNft.MantaPay.Verdict

/-! Runs of MantaPay: its own calls between the moves of the other pallets. -/

namespace ZkNft

variable {R : Runtime}

inductive Move (R : Runtime) where
  | call (origin : Origin R) (call : Call R)
  | other (s : State R)

/-- A call is dispatched; another pallet leaves the state it says. -/
def Move.next (s : State R) : Move R → State R
  | .call origin c => (c.dispatch origin s).2
  | .other s' => s'

/-- Other pallets do not write the storage of MantaPay. -/
def Move.Allowed (s : State R) : Move R → Prop
  | .call _ _ => True
  | .other s' => s'.pay = s.pay

/-- The post of a call that is accepted. -/
def Move.accepted (s : State R) : Move R → Option (Config.TransferPost R.crypto.toFields)
  | .call (.signed o) c =>
    match (c.dispatch (.signed o) s).1 with
    | .ok _ => (c.posting o.account).bind fun q => q.post.tryInto.toOption
    | _ => none
  | _ => none

abbrev History (R : Runtime) := List (State R × Move R)

/-- The posts accepted in a history, in order. -/
def posts (tr : History R) : List (Config.TransferPost R.crypto.toFields) :=
  tr.filterMap fun x => x.2.accepted x.1

/-- The states that some history leads to from an empty MantaPay storage. -/
def Reachable (s : State R) : Prop :=
  ∃ s₀ tr, s₀.pay = .genesis ∧ Run Move.next Move.Allowed s₀ tr s

theorem posts_append (tr tr' : History R) : posts (tr ++ tr') = posts tr ++ posts tr' :=
  List.filterMap_append

section Calls
variable {s s' : State R}

theorem Call.dispatch_unsigned {origin : Origin R} (h : ∀ o, origin ≠ .signed o) (call : Call R) :
    call.dispatch origin s = (.err .badOrigin, s) := by
  cases origin with
  | signed o => exact absurd rfl (h o)
  | root => cases call <;> rfl
  | none => cases call <;> rfl

/-- A call that does not succeed changes nothing. -/
theorem Call.dispatch_rollback {origin : Origin R} {call : Call R}
    (h : ∀ u, (call.dispatch origin s).1 ≠ .ok u) : (call.dispatch origin s).2 = s := by
  cases call <;> exact Tx.transactional_rollback h

/-- What a successful public transfer does. -/
theorem Pallet.publicTransfer_run_ok {o : Signer R} {asset : Asset} {sink : R.Account} {u : PUnit}
    (h : publicTransfer (.signed o) asset sink s = (.ok u, s')) :
    ∃ id metadata w, idFromField asset.id = some id ∧ s.registry.get id = some metadata ∧
      s' = { s with
        world := w
        events := s.events ++ [.transfer asset o.account sink] } ∧
      ((metadata.isFungible = true ∧ R.ValidId id ∧ (R.token id).transfer s.world o.account sink
          (assetValueDecode asset.value) true = .ok w) ∨
        (metadata.isFungible = false ∧ ∃ c i, metadata.getNonFungibleId = some (c, i) ∧
          R.uniquesOwner s.world c i = some o.account ∧
          R.uniquesTransfer s.world c i sink = .ok w)) := by
  simp only [publicTransfer, Tx.transactional_run_ok, Tx.read_bind_ok, ensureSigned,
    Exec.ok.injEq, exists_eq_left', Exec.okOr_eq_ok] at h
  obtain ⟨id, hid, md, hmd, h⟩ := h
  split_ifs at h with hf
  · simp only [Tx.read_bind_ok, Exec.lift_eq_ok, Exec.except_mapError_eq_ok,
      Frame.transfer_eq_ok, Tx.modify_ok] at h
    obtain ⟨w, ⟨hv, hw⟩, rfl⟩ := h
    exact ⟨id, md, w, hid, hmd, rfl, .inl ⟨hf, hv, hw⟩⟩
  · simp only [Tx.read_bind_ok, Exec.okOr_eq_ok, Pallet.ensure, Exec.ensure_eq_ok, exists_const,
      Exec.lift_eq_ok, Exec.except_mapError_eq_ok, Frame.nonFungible_transfer_eq_ok,
      Tx.modify_ok] at h
    obtain ⟨⟨c, i⟩, hci, owner, ho, rfl, w, hw, rfl⟩ := h
    exact ⟨id, md, w, hid, hmd, rfl, .inr ⟨by simpa using hf, c, i, hci, ho, hw⟩⟩

/-- What an accepted post does: it passed the checks, was written to the ledger, and its public
values were moved. -/
structure Posted (q : Posting R) (s s' : State R)
    (post : Config.TransferPost R.crypto.toFields) : Prop where
  decoded : q.post.tryInto = .ok post
  checked : (Pallet.ledgerOf R q.assetType).Checked s post q.sources q.sinks
  writes : TransferLedger.Writes post.body s.pay s'.pay
  registry : s'.registry = s.registry
  events : ∃ e, s'.events = s.events ++ [e]
  balances : match post.body.assetId with
    | none => s'.world = s.world
    | some a => ∃ s₁, s₁.registry = s.registry ∧ s₁.world = s.world ∧
      (Pallet.ledgerOf R q.assetType).updatePublicBalances a (q.sources.zip post.body.sources)
        (q.sinks.zip post.body.sinks) s₁ = (.ok ⟨⟩, { s₁ with world := s'.world })

theorem Call.dispatch_posted {o : Signer R} {call : Call R} {q : Posting R} {u : PUnit}
    (hq : call.posting o.account = some q) (h : call.dispatch (.signed o) s = (.ok u, s')) :
    call.Guard s ∧ ∃ post, Posted q s s' post := by
  have ⟨hg, h⟩ := (Call.dispatch_ok hq).mp h
  obtain ⟨post, event, s₁, hd, hp, rfl⟩ := Pallet.postTransaction_run_ok.mp h
  have ⟨hchk, hval, hkey⟩ := (TransferLedger.post_run_ok
    (Pallet.ledgerOf_passesAccounts q.assetType)).mp hp
  obtain ⟨p', hw, hupd⟩ := TransferLedger.postKey_run_ok.mp hkey
  refine ⟨hg, post, ?_⟩
  cases ha : post.body.assetId with
  | none =>
    simp only [ha] at hupd
    subst hupd
    exact ⟨hd, hchk, hw, rfl, ⟨_, rfl⟩, by simp only [ha]⟩
  | some a =>
    simp only [ha] at hupd
    obtain ⟨w, rfl⟩ := Pallet.updatePublicBalances_sameButWorld hupd
    refine ⟨hd, hchk, hw, rfl, ⟨_, rfl⟩, ?_⟩
    simp only [ha]
    exact ⟨{ s with pay := p' }, rfl, rfl, hupd⟩

/-- Each move leaves the storage of MantaPay alone or writes one accepted post to it. -/
theorem Move.next_pay {m : Move R} (hm : m.Allowed s) :
    (m.accepted s = none ∧ (m.next s).pay = s.pay) ∨ ∃ post, m.accepted s = some post ∧
      TransferLedger.Fresh s.pay post.body ∧
      TransferLedger.Writes post.body s.pay (m.next s).pay := by
  cases m with
  | other s' => exact .inl ⟨rfl, hm⟩
  | call origin c =>
    cases origin with
    | root => exact .inl ⟨rfl, by rw [Move.next, Call.dispatch_unsigned (by simp)]⟩
    | none => exact .inl ⟨rfl, by rw [Move.next, Call.dispatch_unsigned (by simp)]⟩
    | signed o =>
      cases hr : (c.dispatch (.signed o) s).1 with
      | err e =>
        refine .inl ⟨by simp only [Move.accepted, hr], ?_⟩
        rw [Move.next, Call.dispatch_rollback (by simp [hr])]
      | trap t =>
        refine .inl ⟨by simp only [Move.accepted, hr], ?_⟩
        rw [Move.next, Call.dispatch_rollback (by simp [hr])]
      | ok u =>
        have hd : c.dispatch (.signed o) s = (.ok u, Move.next s (.call (.signed o) c)) :=
          Prod.ext hr rfl
        cases hq : c.posting o.account with
        | some q =>
          obtain ⟨-, post, hp⟩ := Call.dispatch_posted hq hd
          refine .inr ⟨post, ?_, hp.checked.fresh, hp.writes⟩
          simp only [Move.accepted, hr, hq, Option.bind_some, hp.decoded]
          rfl
        | none =>
          refine .inl ⟨by simp only [Move.accepted, hr, hq]; rfl, ?_⟩
          cases c with
          | publicTransfer asset sink =>
            obtain ⟨id, md, w, -, -, hs, -⟩ := Pallet.publicTransfer_run_ok hd
            rw [hs]
          | toPrivate t post => cases hq
          | toPublic t post => cases hq
          | privateTransfer t post => cases hq
          | privateTransferAsset id t zk post => cases hq

end Calls

end ZkNft
