import ZkNft.Lib.Paging
import ZkNft.MantaPay.Storage

/-! `pull_ledger_diff`: what a wallet is sent of the ledger behind its checkpoint. -/

namespace ZkNft
open StorageMap

/-- How far a wallet has read each shard and the nullifiers. -/
structure Checkpoint where
  receiverIndex : Fin 256 → ℕ
  senderIndex : ℕ

abbrev ReceiverChunk := List (Utxo × FullIncomingNote)

abbrev SenderChunk := List (Bytes 32 × OutgoingNote)

structure PullResponse where
  shouldContinue : Bool
  receivers : ReceiverChunk
  senders : SenderChunk
  sendersReceiversTotal : Bytes 16

namespace Pallet

def pullMaxReceiverUpdateSize : ℕ := 32768

def pullMaxSenderUpdateSize : ℕ := 32768

section Receivers
variable (p : PayStorage) (maxUpdate : ℕ)

/-- The loop of `pull_receivers_for_shard` over the next `n` indices from `idx` on. -/
def pullShardLoop (shardIndex : Fin 256) :
    ℕ → ℕ → ReceiverChunk × ℕ → Bool × ReceiverChunk × ℕ
  | 0, idx, pulled => (p.shards.containsKey (shardIndex, idx), pulled)
  | n + 1, idx, (receivers, receiversPulled) =>
    if receiversPulled = maxUpdate then
      (p.shards.containsKey (shardIndex, idx), receivers, receiversPulled)
    else
      match p.shards.get (shardIndex, idx) with
      | some next =>
        pullShardLoop shardIndex n (idx + 1) (receivers ++ [next], receiversPulled + 1)
      | none => (false, receivers, receiversPulled)

def pullReceiversForShard (shardIndex : Fin 256) (receiverIndex : ℕ)
    (pulled : ReceiverChunk × ℕ) : Bool × ReceiverChunk × ℕ :=
  pullShardLoop p maxUpdate shardIndex maxUpdate receiverIndex pulled

/-- The loop of `pull_receivers` over the shards that are left. -/
def pullShards (receiverIndices : Fin 256 → ℕ) :
    List (Fin 256) → Bool → ReceiverChunk × ℕ → Bool × ReceiverChunk
  | [], moreReceivers, (receivers, _) => (moreReceivers, receivers)
  | shardIndex :: rest, moreReceivers, pulled =>
    let (more, receivers, receiversPulled) :=
      pullReceiversForShard p maxUpdate shardIndex (receiverIndices shardIndex) pulled
    let moreReceivers := moreReceivers || more
    -- the capacity is reached and there is more to pull
    if receiversPulled = maxUpdate ∧ moreReceivers = true then (moreReceivers, receivers)
    else pullShards receiverIndices rest moreReceivers (receivers, receiversPulled)

end Receivers

def pullReceivers (p : PayStorage) (receiverIndices : Fin 256 → ℕ) (maxUpdateRequest : ℕ) :
    Bool × ReceiverChunk :=
  pullShards p (min maxUpdateRequest pullMaxReceiverUpdateSize) receiverIndices
    (List.finRange 256) false ([], 0)

/-- The loop of `pull_senders` over the next `n` indices from `idx` on. -/
def pullSenderLoop (p : PayStorage) : ℕ → ℕ → SenderChunk → Bool × SenderChunk
  | 0, idx, senders => (p.nullifierSetInsertionOrder.containsKey idx, senders)
  | n + 1, idx, senders =>
    match p.nullifierSetInsertionOrder.get idx with
    | some next => pullSenderLoop p n (idx + 1) (senders ++ [next])
    | none => (false, senders)

def pullSenders (p : PayStorage) (senderIndex maxUpdateRequest : ℕ) : Bool × SenderChunk :=
  pullSenderLoop p (min maxUpdateRequest pullMaxSenderUpdateSize) senderIndex []

def pullLedgerDiff (p : PayStorage) (checkpoint : Checkpoint) (maxReceivers maxSenders : ℕ) :
    PullResponse :=
  let (moreReceivers, receivers) := pullReceivers p checkpoint.receiverIndex maxReceivers
  let (moreSenders, senders) := pullSenders p checkpoint.senderIndex maxSenders
  let sendersReceiversTotal :=
    ((List.finRange 256).map fun i => (p.shardTree i).currentPath.leafIndex.setWidth 128).sum +
      BitVec.ofNat 128 p.nullifierSetSize
  { shouldContinue := moreReceivers || moreSenders
    receivers
    senders
    sendersReceiversTotal := assetValueEncode sendersReceiversTotal }

section Spec
variable {p : PayStorage} {maxUpdate : ℕ} {s : Fin 256}

/-- The loop over one shard reads a page of it within the rest of the budget. -/
theorem pullShardLoop_page {l : ReceiverChunk} (hl : Lists (fun i => p.shards.get (s, i)) l)
    (n idx : ℕ) (receivers : ReceiverChunk) {pulled budget : ℕ}
    (hbudget : pulled + budget = maxUpdate) (hn : budget ≤ n) :
    ∃ more part, pullShardLoop p maxUpdate s n idx (receivers, pulled) =
      (more, receivers ++ part, pulled + part.length) ∧ Page l idx budget more part := by
  have hstop : ∀ j, p.shards.containsKey (s, j) = decide (j < l.length) := fun j => by
    rw [Bool.eq_iff_iff, decide_eq_true_eq]
    exact hl.isSome_iff j
  induction n generalizing idx budget receivers pulled with
  | zero =>
    obtain rfl : budget = 0 := Nat.le_zero.mp hn
    refine ⟨_, [], ?_, Page.stop⟩
    simp [pullShardLoop, hstop]
  | succ n ih =>
    rw [pullShardLoop]
    by_cases hfull : pulled = maxUpdate
    · obtain rfl : budget = 0 := by omega
      refine ⟨_, [], ?_, Page.stop⟩
      simp [hfull, hstop]
    · obtain ⟨rest, rfl⟩ : ∃ rest, budget = rest + 1 := ⟨budget - 1, by omega⟩
      have hget : p.shards.get (s, idx) = l[idx]? := hl idx
      rw [if_neg hfull, hget]
      cases hv : l[idx]? with
      | none =>
        refine ⟨false, [], by simp, Page.finish ?_⟩
        exact List.getElem?_eq_none_iff.mp hv
      | some v =>
        obtain ⟨more, part, heq, hpage⟩ :=
          ih (idx + 1) (receivers ++ [v]) (show pulled + 1 + rest = maxUpdate by omega) (by omega)
        refine ⟨more, v :: part, ?_, hpage.cons hv⟩
        have hlen : pulled + 1 + part.length = pulled + (v :: part).length := by
          rw [List.length_cons]
          omega
        simp only [heq, hlen, List.append_assoc, List.singleton_append]

/-- The loop over the shards reads pages of them within the budget. -/
theorem pullShards_pages {l : Fin 256 → ReceiverChunk}
    (hl : ∀ s, Lists (fun i => p.shards.get (s, i)) (l s)) (idx : Fin 256 → ℕ)
    {shards : List (Fin 256)} (hnodup : shards.Nodup) (receivers : ReceiverChunk)
    {pulled budget : ℕ} (hbudget : pulled + budget = maxUpdate) :
    ∃ more parts, pullShards p maxUpdate idx shards false (receivers, pulled) =
      (more, receivers ++ shards.flatMap parts) ∧ Pages l idx shards budget more parts := by
  induction shards generalizing receivers pulled budget with
  | nil => exact ⟨false, fun _ => [], by simp [pullShards], Pages.nil⟩
  | cons s rest ih =>
    have ⟨hs, hrest⟩ := List.nodup_cons.mp hnodup
    obtain ⟨more, part, heq, hpage⟩ :=
      pullShardLoop_page (hl s) maxUpdate (idx s) receivers hbudget (by omega)
    rw [pullShards, pullReceiversForShard, heq]
    cases more with
    | true =>
      have hlen := hpage.full rfl
      refine ⟨true, _, ?_, Pages.cut hs hpage⟩
      rw [Pages.flatMap_update hs]
      simp [show pulled + part.length = maxUpdate by omega]
    | false =>
      have hlen := hpage.within
      have hleft : pulled + part.length + (budget - part.length) = maxUpdate := by omega
      obtain ⟨more, parts, heq', hpages⟩ := ih hrest (receivers ++ part) hleft
      refine ⟨more, _, ?_, Pages.cons hs hpage hpages⟩
      rw [Pages.flatMap_update hs, ← List.append_assoc]
      simpa using heq'

theorem pullSenderLoop_page {l : SenderChunk} (hl : Lists p.nullifierSetInsertionOrder.get l)
    (n idx : ℕ) (senders : SenderChunk) : ∃ more part,
      pullSenderLoop p n idx senders = (more, senders ++ part) ∧ Page l idx n more part := by
  induction n generalizing idx senders with
  | zero =>
    refine ⟨_, [], ?_, Page.stop⟩
    have hstop : p.nullifierSetInsertionOrder.containsKey idx = decide (idx < l.length) := by
      rw [Bool.eq_iff_iff, decide_eq_true_eq]
      exact hl.isSome_iff idx
    simp [pullSenderLoop, hstop]
  | succ n ih =>
    rw [pullSenderLoop, hl idx]
    cases hv : l[idx]? with
    | none => exact ⟨false, [], by simp, Page.finish (List.getElem?_eq_none_iff.mp hv)⟩
    | some v =>
      obtain ⟨more, part, heq, hpage⟩ := ih (idx + 1) (senders ++ [v])
      refine ⟨more, v :: part, ?_, hpage.cons hv⟩
      simp only [heq, List.append_assoc, List.singleton_append]

end Spec

end Pallet

end ZkNft
