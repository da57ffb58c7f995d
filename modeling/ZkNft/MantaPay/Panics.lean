import ZkNft.MantaPay.Admission
import ZkNft.MantaPay.Sample

/-! Which calls return: the inputs that reach a failing `expect` or an error conversion without
end. -/

namespace ZkNft

variable {R : Runtime}

theorem Pallet.publicTransfer_returns {s : State R} {origin : Origin R} {asset : Asset}
    {sink : R.Account} : (publicTransfer origin asset sink s).1.Returns := by
  have hsigned : (ensureSigned origin).Returns := by
    cases origin with
    | signed o => exact Exec.ok_returns _
    | root => exact Exec.err_returns _
    | none => exact Exec.err_returns _
  simp only [publicTransfer, Tx.transactional_returns, Tx.read_bind_returns, hsigned,
    Exec.okOr_returns, true_and]
  intro who _ id _ metadata _
  split_ifs
  · simp only [Tx.read_bind_returns, Exec.lift_returns, true_and]
    exact fun _ _ => Exec.ok_returns _
  · simp only [Tx.read_bind_returns, Exec.okOr_returns, true_and, ensure, Exec.ensure_returns,
      Exec.lift_returns]
    exact fun _ _ _ _ _ _ _ _ => Exec.ok_returns _

/-- The call passes its guards and its post halts. -/
def Call.Halts (s : State R) (o : Signer R) (call : Call R) : Prop :=
  ∃ q post, call.posting o.account = some q ∧ call.Guard s ∧ q.post.tryInto = .ok post ∧
    q.Halts s post

/-- A signed call returns exactly if it does not halt. -/
theorem Call.dispatch_returns_iff (hR : R.Lawful) (s : State R) (o : Signer R) (call : Call R) :
    (call.dispatch (.signed o) s).1.Returns ↔ ¬ call.Halts s o := by
  cases hq : call.posting o.account with
  | some q =>
    rw [Call.returns_iff hR hq, Call.Halts, hq]
    simp only [Option.some.injEq, exists_and_left, exists_eq_left']
  | none =>
    have hret : (call.dispatch (.signed o) s).1.Returns := by
      cases call with
      | publicTransfer asset sink => exact Pallet.publicTransfer_returns
      | toPrivate t post => cases hq
      | toPublic t post => cases hq
      | privateTransfer t post => cases hq
      | privateTransferAsset id t zk post => cases hq
    refine iff_of_true hret fun ⟨q, post, hq', _⟩ => ?_
    rw [hq] at hq'
    cases hq'

open Sample in
theorem Call.dispatch_returns_iff_sample :
    ((Call.toPrivate .nft (mint 9 5 7)).dispatch (.signed (signer 0)) start).1.Returns ↔
      ¬ (Call.toPrivate .nft (mint 9 5 7)).Halts start (signer 0) :=
  Call.dispatch_returns_iff runtime_lawful start (signer 0) _

open Sample in
/-- An item posted as a token, and a token posted as an item, stop the machine. -/
theorem mismatched_type_traps :
    Reachable start ∧
      ¬ ((Call.toPrivate .ft (mint 9 5 7)).dispatch (.signed (signer 0)) start).1.Returns ∧
      ¬ ((Call.toPrivate .nft (mint 8 5 7)).dispatch (.signed (signer 0)) start).1.Returns := by
  refine ⟨start_reachable, fun h => ?_, fun h => ?_⟩
  · have htrap : ((Call.toPrivate .ft (mint 9 5 7)).dispatch (.signed (signer 0)) start).1 =
        .trap (.expect "Asset Id get failed") := by decide +kernel
    exact h _ htrap
  · have htrap : ((Call.toPrivate .nft (mint 8 5 7)).dispatch (.signed (signer 0)) start).1 =
        .trap (.expect "Metadata get failed") := by decide +kernel
    exact h _ htrap

end ZkNft
