import ZkNft.MantaPay.Books
import ZkNft.MantaPay.Sample

/-! The pool of fungible tokens over whole histories: the pallet account holds what went in and did
not come out. -/

namespace ZkNft
open TransferLedger

variable {R : Runtime}

/-- The balance of the pallet account. -/
def State.pool (s : State R) (token : StandardAssetId) : ℕ :=
  ((R.token token).balance s.world R.palletAccount).toNat

/-- The public source values of the accepted posts that move a token. -/
def minted (s : State R) (token : StandardAssetId) (tr : History R) : ℕ :=
  tally (fun post => s.tokenOf post = some token) (·.sources) tr

def redeemed (s : State R) (token : StandardAssetId) (tr : History R) : ℕ :=
  tally (fun post => s.tokenOf post = some token) (·.sinks) tr

/-- What a move that is not a post brings to the pallet account. -/
def Move.deposit (token : StandardAssetId) (s : State R) : Move R → ℕ
  | .other s' => s'.pool token - s.pool token
  | .call origin (.publicTransfer asset sink) =>
    match (Pallet.publicTransfer origin asset sink s).1 with
    | .ok _ =>
      if sink = R.palletAccount ∧ idFromField asset.id = some token ∧
        (s.registry.get token).any AssetStorageMetadata.isFungible = true
      then (assetValueDecode asset.value).toNat
      else 0
    | _ => 0
  | .call _ _ => 0

def deposited (token : StandardAssetId) (tr : History R) : ℕ :=
  (tr.map fun x => x.2.deposit token x.1).sum

/-- Other pallets write no storage of MantaPay, change no registered metadata and take nothing
from the pallet account. -/
def Move.KeepsPool (s : State R) : Move R → Prop
  | .call _ _ => True
  | .other s' =>
    s'.pay = s.pay ∧ s.KeepsMetadata s' ∧ ∀ token, s.pool token ≤ s'.pool token

section Step
variable {s₀ s s' : State R} {m : Move R} {token : StandardAssetId} {tr : History R}

/-- A post moves the balance of the pallet account by its public values. -/
theorem Paid.pool {post : Config.TransferPost R.crypto.toFields} (hR : R.Lawful)
    (h : Paid s s' post.body) (token : StandardAssetId) :
    s'.pool token + share (fun post => s.tokenOf post = some token) (·.sinks) post =
      s.pool token + share (fun post => s.tokenOf post = some token) (·.sources) post := by
  have hitem : ∀ {a c i w}, post.body.assetId = some a → NonFungibleId s a c i →
      R.uniquesTransfer s.world c i w = .ok s'.world →
      s'.pool token + share (fun post => s.tokenOf post = some token) (·.sinks) post =
        s.pool token + share (fun post => s.tokenOf post = some token) (·.sources) post := by
    intro a c i w hid hitem hw
    have hbal := hR.frame.uniquesTransfer_balance _ _ _ _ _ hw token R.palletAccount
    simp [share, (hitem.itemOf hid).2, State.pool, hbal]
  cases h with
  | reshape hid hw =>
    have hnone : s.tokenOf post = none := by
      rw [State.tokenOf, State.metadataOf_none hid]
      rfl
    simp [share, hnone, State.pool, hw]
  | @mintToken a id x v hid htoken hso hsi hx hw =>
    rw [share, share, (htoken.tokenOf hid).1, hso, hsi]
    by_cases ht : id = token
    · subst ht
      have hdst := hw.destination hx
      simp only [if_true, total, List.map_cons, List.map_nil, List.sum_cons, List.sum_nil,
        State.pool, hdst]
      omega
    · have hother := hw.other token R.palletAccount (.inl (Ne.symm ht))
      simp only [Option.some.injEq, if_neg ht, State.pool, hother]
  | @redeemToken a id x v hid htoken hso hsi hx hw =>
    rw [share, share, (htoken.tokenOf hid).1, hso, hsi]
    by_cases ht : id = token
    · subst ht
      have hsrc := hw.source (Ne.symm hx)
      simp only [if_true, total, List.map_cons, List.map_nil, List.sum_cons, List.sum_nil,
        State.pool]
      omega
    · have hother := hw.other token R.palletAccount (.inl (Ne.symm ht))
      simp only [Option.some.injEq, if_neg ht, State.pool, hother]
  | mintItem hid hitem' _ _ hw => exact hitem hid hitem' hw
  | redeemItem hid hitem' _ _ _ hw => exact hitem hid hitem' hw

theorem Move.deposit_of_fail {origin : Origin R} {call : Call R}
    (h : ∀ u, (call.dispatch origin s).1 ≠ .ok u) :
    (Move.call origin call).deposit token s = 0 := by
  cases call with
  | publicTransfer asset sink =>
    cases hr : (Pallet.publicTransfer origin asset sink s).1 with
    | ok u => exact absurd hr (h u)
    | err e => simp only [Move.deposit, hr]
    | trap t => simp only [Move.deposit, hr]
  | _ => rfl

theorem Move.deposit_of_posting {o : Signer R} {call : Call R} {q : Posting R}
    (hq : call.posting o.account = some q) :
    (Move.call (.signed o) call).deposit token s = 0 := by
  cases call with
  | publicTransfer asset sink => cases hq
  | _ => rfl

theorem Sent.deposit {o : Signer R} {asset : Asset} {sink : R.Account} {w : R.World}
    {id : StandardAssetId} {metadata : AssetStorageMetadata R.Account}
    (h : Sent s m o asset sink w) (hid : idFromField asset.id = some id)
    (hreg : s.registry.get id = some metadata) :
    m.deposit token s = if sink = R.palletAccount ∧ id = token ∧ metadata.isFungible = true then
      (assetValueDecode asset.value).toNat else 0 := by
  rw [h.move]
  simp only [Move.deposit, h.accepted, hid, Option.some.injEq]
  by_cases ht : id = token
  · subst ht
    simp [hreg]
  · simp [ht]

/-- The balance of the pallet account before and after a move. -/
theorem Move.pool_step (hR : R.Lawful) (hm : m.KeepsPool s) (token : StandardAssetId) :
    (m.next s).pool token + ((m.accepted s).elim 0
        (share (fun post => s.tokenOf post = some token) (·.sinks))) =
      s.pool token + ((m.accepted s).elim 0
        (share (fun post => s.tokenOf post = some token) (·.sources))) + m.deposit token s := by
  cases Move.effect hR s m with
  | @outside s' hm' =>
    subst hm'
    have hle := hm.2.2 token
    show s'.pool token + 0 = s.pool token + 0 + (s'.pool token - s.pool token)
    omega
  | idle hm' hfail hs =>
    subst hm'
    rw [hs, Move.accepted_of_fail hfail, Move.deposit_of_fail hfail]
    rfl
  | @posted o call q post hm' hq _ _ hpost hreg hpaid =>
    have hdep : m.deposit token s = 0 := by
      rw [hm']
      exact Move.deposit_of_posting hq
    rw [hpost, hdep]
    exact hpaid.pool hR token
  | @sentToken o asset sink w id md h hid hreg htoken hw =>
    have hnext : (m.next s).pool token = ((R.token token).balance w R.palletAccount).toNat := by
      rw [h.next]
      rfl
    rw [h.not_posted, hnext, h.deposit hid hreg]
    show _ + 0 = s.pool token + 0 + _
    by_cases hin : sink = R.palletAccount ∧ id = token
    · obtain ⟨rfl, rfl⟩ := hin
      have hdst := hw.destination o.ne_pallet
      simp only [htoken, and_self, if_true, State.pool, hdst]
      omega
    · have hother : (R.token token).balance w R.palletAccount =
          (R.token token).balance s.world R.palletAccount := by
        apply hw.other
        by_cases ht : token = id
        · exact .inr ⟨Ne.symm o.ne_pallet, fun hs => hin ⟨hs.symm, ht.symm⟩⟩
        · exact .inl ht
      rw [if_neg fun hall => hin ⟨hall.1, hall.2.1⟩, hother]
      rfl
  | @sentItem o asset sink w id c i md h hid hreg hitem howner hw =>
    have hnext : (m.next s).pool token = s.pool token := by
      rw [h.next]
      show ((R.token token).balance w R.palletAccount).toNat = _
      rw [hR.frame.uniquesTransfer_balance _ _ _ _ _ hw token R.palletAccount]
      rfl
    have hfungible : md.isFungible = false := by
      cases md with
      | fungible data => cases hitem
      | nonFungible data => rfl
      | sbt data => rfl
    rw [h.not_posted, hnext, h.deposit hid hreg, if_neg (by simp [hfungible])]
    rfl

end Step

section Runs
variable {s₀ s : State R} {m : Move R} {tr : History R}

/-- The books of a history: every accepted post has a registered asset, and the pool is what was
there, minted and deposited, less what was redeemed. -/
structure Solvent (s₀ s : State R) (tr : History R) : Prop where
  registered : Registered s tr
  balance : ∀ token, s.pool token + redeemed s token tr =
    s₀.pool token + minted s token tr + deposited token tr

theorem Solvent.step (hR : R.Lawful) (h : Solvent s₀ s tr) (hm : m.KeepsPool s) :
    Solvent s₀ (m.next s) (tr ++ [(s, m)]) := by
  have hk : s.KeepsMetadata (m.next s) := by
    apply Move.keepsMetadata hR
    intro s' hm'
    subst hm'
    exact hm.2.1
  have hreg : Registered s (tr ++ [(s, m)]) := h.registered.snoc hR
  refine ⟨hreg.keep hk, fun token => ?_⟩
  have hstep := Move.pool_step hR hm token
  have hbal := h.balance token
  have hdep : deposited token (tr ++ [(s, m)]) = deposited token tr + m.deposit token s := by
    simp [deposited]
  have hmint : minted (m.next s) token (tr ++ [(s, m)]) = minted s token (tr ++ [(s, m)]) :=
    hreg.tally_keep hk _ _ _
  have hred : redeemed (m.next s) token (tr ++ [(s, m)]) = redeemed s token (tr ++ [(s, m)]) :=
    hreg.tally_keep hk _ _ _
  rw [hred, hmint, hdep, redeemed, minted, tally_snoc, tally_snoc]
  rw [redeemed, minted] at hbal
  simp only
  omega

theorem run_solvent (hR : R.Lawful) (h : Run Move.next Move.KeepsPool s₀ tr s) :
    Solvent s₀ s tr := by
  induction h with
  | nil =>
    constructor
    · intro post hpost
      cases hpost
    · intro token
      rfl
  | snoc _ hm ih => exact ih.step hR hm

/-- The pallet account holds its initial balance and what was minted and deposited, less what was
redeemed; so it covers the private value of each token. A failed call changes nothing. -/
theorem pool_solvent (hR : R.Lawful) (h : Run Move.next Move.KeepsPool s₀ tr s) :
    (∀ token, (s.pool token : ℤ) = s₀.pool token + minted s token tr - redeemed s token tr +
        deposited token tr ∧
      (minted s token tr : ℤ) - redeemed s token tr ≤ s.pool token) ∧
      ∀ (origin : Origin R) (call : Call R), (∀ u, (call.dispatch origin s).1 ≠ .ok u) →
        (call.dispatch origin s).2 = s := by
  refine ⟨fun token => ?_, fun origin call hfail => Call.dispatch_rollback hfail⟩
  have hbal := (run_solvent hR h).balance token
  constructor <;> omega

end Runs

section Witness
open Sample

theorem keepsPool_history : Run Move.next Move.KeepsPool start history final := by
  refine Run.play fun x hx => ?_
  obtain ⟨origin, call, heq⟩ := moves_calls (mem_of_trace hx)
  rw [heq]
  trivial

theorem pool_solvent_sample :
    (∀ token, (final.pool token : ℤ) = start.pool token + minted final token history -
        redeemed final token history + deposited token history ∧
      (minted final token history : ℤ) - redeemed final token history ≤ final.pool token) ∧
      ∀ (origin : Origin runtime) (call : Call runtime),
        (∀ u, (call.dispatch origin final).1 ≠ .ok u) → (call.dispatch origin final).2 = final :=
  pool_solvent runtime_lawful keepsPool_history

end Witness

end ZkNft
