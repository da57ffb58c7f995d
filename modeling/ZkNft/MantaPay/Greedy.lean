import ZkNft.MantaPay.Pull
import ZkNft.MantaPay.Sample

/-! The receivers of a pull: the first ones of all that the shards hold behind a checkpoint. -/

namespace ZkNft
open StorageMap

namespace Pallet

section Greedy
variable {p : PayStorage} {l : Fin 256 → ReceiverChunk} {maxUpdate : ℕ}

/-- A shard holds an entry behind all that were read, or there is nothing left of it. -/
theorem containsKey_shard {s : Fin 256} (hl : Lists (fun i => p.shards.get (s, i)) (l s))
    (idx : ℕ) : p.shards.containsKey (s, idx) = decide (0 < ((l s).drop idx).length) := by
  rw [Bool.eq_iff_iff, decide_eq_true_eq, List.length_drop, Nat.sub_pos_iff_lt]
  exact hl.isSome_iff idx

/-- What is left of a shard is read up to the rest of the budget. -/
theorem pullShardLoop_eq {s : Fin 256} (hl : Lists (fun i => p.shards.get (s, i)) (l s))
    (n idx : ℕ) (receivers : ReceiverChunk) {pulled budget : ℕ}
    (hbudget : pulled + budget = maxUpdate) (hn : budget ≤ n) :
    pullShardLoop p maxUpdate s n idx (receivers, pulled) =
      (decide (budget < ((l s).drop idx).length), receivers ++ ((l s).drop idx).take budget,
        pulled + (((l s).drop idx).take budget).length) := by
  have hstop := containsKey_shard hl idx
  induction n generalizing idx budget receivers pulled with
  | zero =>
    have hzero : budget = 0 := Nat.le_zero.mp hn
    rw [pullShardLoop, hstop, hzero]
    simp
  | succ n ih =>
    rw [pullShardLoop]
    by_cases hfull : pulled = maxUpdate
    · have hzero : budget = 0 := by omega
      rw [if_pos hfull, hstop, hzero]
      simp
    · obtain ⟨rest, hrest⟩ : ∃ rest, budget = rest + 1 := ⟨budget - 1, by omega⟩
      have hget : p.shards.get (s, idx) = (l s)[idx]? := hl idx
      rw [if_neg hfull, hget, hrest]
      cases hv : (l s)[idx]? with
      | none =>
        have hend : (l s).drop idx = [] :=
          List.drop_eq_nil_of_le (List.getElem?_eq_none_iff.mp hv)
        simp [hend]
      | some v =>
        obtain ⟨hlt, hv⟩ := List.getElem?_eq_some_iff.mp hv
        have hdrop : (l s).drop idx = v :: (l s).drop (idx + 1) := by
          rw [List.drop_eq_getElem_cons hlt, hv]
        have hstop' := containsKey_shard hl (idx + 1)
        simp only [ih (idx + 1) (receivers ++ [v])
          (show pulled + 1 + rest = maxUpdate by omega) (by omega) hstop', hdrop,
          List.length_cons, List.take_succ_cons, Nat.add_lt_add_iff_right, List.append_assoc,
          List.singleton_append]
        simp only [Prod.mk.injEq, true_and]
        omega

/-- What the shards hold behind a checkpoint, one shard after the other. -/
def available (l : Fin 256 → ReceiverChunk) (idx : Fin 256 → ℕ) (shards : List (Fin 256)) :
    ReceiverChunk := shards.flatMap fun s => (l s).drop (idx s)

/-- Where the budget ends within a shard, the loop stops behind it; where it ends with a shard, the
loop goes on to see whether a later one has entries. -/
theorem pullShards_eq (hl : ∀ s, Lists (fun i => p.shards.get (s, i)) (l s)) (idx : Fin 256 → ℕ)
    (shards : List (Fin 256)) (receivers : ReceiverChunk) {pulled budget : ℕ}
    (hbudget : pulled + budget = maxUpdate) :
    pullShards p maxUpdate idx shards false (receivers, pulled) =
      (decide (budget < (available l idx shards).length),
        receivers ++ (available l idx shards).take budget) := by
  induction shards generalizing receivers pulled budget with
  | nil => simp [pullShards, available]
  | cons s rest ih =>
    have hcons : available l idx (s :: rest) = (l s).drop (idx s) ++ available l idx rest := rfl
    rw [pullShards, pullReceiversForShard,
      pullShardLoop_eq (hl s) maxUpdate (idx s) receivers hbudget (by omega), hcons]
    generalize (l s).drop (idx s) = d
    rw [List.length_append, List.take_append]
    by_cases hmore : budget < d.length
    · have hlen : (d.take budget).length = budget := by
        rw [List.length_take]
        omega
      have hrest : budget - d.length = 0 := by omega
      have hlt : budget < d.length + (available l idx rest).length := by omega
      simp [hmore, hlen, hbudget, hrest, hlt]
    · have hall : d.take budget = d := List.take_of_length_le (by omega)
      have hleft : pulled + d.length + (budget - d.length) = maxUpdate := by omega
      have hiff : budget < d.length + (available l idx rest).length ↔
          budget - d.length < (available l idx rest).length := by omega
      simp only [hmore, decide_false, Bool.or_self, Bool.false_eq_true, and_false, if_false, hall,
        ih (receivers ++ d) hleft, List.append_assoc, hiff]

/-- `pull_receivers` returns a prefix of what is there behind the checkpoint, as long as the request
and the limit allow, and says whether that leaves anything. -/
theorem pullReceivers_greedy (hl : ∀ s, Lists (fun i => p.shards.get (s, i)) (l s))
    (receiverIndices : Fin 256 → ℕ) (maxUpdateRequest : ℕ) :
    let entries := available l receiverIndices (List.finRange 256)
    let (moreReceivers, receivers) := pullReceivers p receiverIndices maxUpdateRequest
    receivers = entries.take (min (min maxUpdateRequest 32768) entries.length) ∧
      (moreReceivers = true ↔ receivers.length < entries.length) := by
  intro entries
  have heq : pullReceivers p receiverIndices maxUpdateRequest =
      (decide (min maxUpdateRequest 32768 < entries.length),
        entries.take (min maxUpdateRequest 32768)) :=
    pullShards_eq hl receiverIndices _ [] (Nat.zero_add _)
  rw [heq]
  constructor
  · rw [← List.take_take (i := min maxUpdateRequest 32768), List.take_length]
  · simp only [decide_eq_true_eq, List.length_take]
    omega

end Greedy

section Witness
open Sample

def receiver (commitment : ℕ) : Utxo × FullIncomingNote :=
  ((receiverPost commitment).utxo, incomingNote)

/-- Two entries in shard 3 and one in shard 5. -/
def threeReceivers (s : Fin 256) : ReceiverChunk :=
  if s = 3 then [receiver 1, receiver 2] else if s = 5 then [receiver 3] else []

def threeShelves : PayStorage :=
  { PayStorage.genesis with shards := ⟨fun k => (threeReceivers k.1)[k.2]?⟩ }

/-- The request ends with shard 3, and the entry of shard 5 is left. -/
theorem pullReceivers_two :
    let entries := available threeReceivers (fun _ => 0) (List.finRange 256)
    let (moreReceivers, receivers) := pullReceivers threeShelves (fun _ => 0) 2
    receivers = entries.take (min (min 2 32768) entries.length) ∧
      (moreReceivers = true ↔ receivers.length < entries.length) := by
  have hlists : ∀ s, Lists (fun i => threeShelves.shards.get (s, i)) (threeReceivers s) :=
    fun _ _ => rfl
  exact pullReceivers_greedy hlists (fun _ => 0) 2

end Witness

end Pallet
end ZkNft
