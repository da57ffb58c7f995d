import Mathlib.Algebra.BigOperators.Fin
import Mathlib.Algebra.Order.BigOperators.Group.Finset
import ZkNft.MantaPay.NullifierHistory
import ZkNft.MantaPay.Pull
import ZkNft.MantaPay.ShardHistory

/-! A wallet that pulls from a ledger while others write to it. -/

namespace ZkNft
open StorageMap ProxyLedger

/-- What a wallet has been sent so far, and where it asks next. -/
structure Wallet where
  checkpoint : Checkpoint
  receivers : ReceiverChunk
  senders : SenderChunk

def Wallet.empty : Wallet := ⟨⟨fun _ => 0, 0⟩, [], []⟩

section Notes
variable {c : Crypto} (itemHash : c.ItemHash)

/-- The shard of a note, by the item hash of its UTXO. -/
def noteShard (note : Utxo × FullIncomingNote) : Option (Fin 256) :=
  (note.1.tryInto (F := c.toFields)).toOption.map (shardIndex itemHash)

def ofShard (s : Fin 256) (notes : ReceiverChunk) : ReceiverChunk :=
  notes.filter fun note => noteShard itemHash note = some s

/-- The checkpoint moves on by the notes of each shard and the senders in the response. -/
def Wallet.receive (w : Wallet) (response : PullResponse) : Wallet :=
  { checkpoint :=
      { receiverIndex := fun s =>
          w.checkpoint.receiverIndex s + (ofShard itemHash s response.receivers).length
        senderIndex := w.checkpoint.senderIndex + response.senders.length }
    receivers := w.receivers ++ response.receivers
    senders := w.senders ++ response.senders }

/-- The notes and the nullifiers a ledger holds, in their order. -/
structure LedgerNotes (p : PayStorage) (receivers : Fin 256 → ReceiverChunk)
    (senders : SenderChunk) : Prop where
  shards : ∀ s, Lists (fun i => p.shards.get (s, i)) (receivers s)
  placed : ∀ s, ∀ note ∈ receivers s, noteShard itemHash note = some s
  distinct : ∀ s, ((receivers s).map Prod.fst).Nodup
  nullifiers : Lists p.nullifierSetInsertionOrder.get senders
  unspent : (senders.map Prod.fst).Nodup

/-- A wallet holds the first notes of each shard and the first nullifiers, and its checkpoint counts
them. -/
structure Wallet.Synced (w : Wallet) (receivers : Fin 256 → ReceiverChunk)
    (senders : SenderChunk) : Prop where
  received : ∀ s, ofShard itemHash s w.receivers <+: receivers s
  counted : ∀ s, w.checkpoint.receiverIndex s = (ofShard itemHash s w.receivers).length
  sharded : ∀ note ∈ w.receivers, ∃ s, noteShard itemHash note = some s
  sent : w.senders <+: senders
  sentCounted : w.checkpoint.senderIndex = w.senders.length

variable {itemHash} {p : PayStorage} {w : Wallet} {receivers receivers' : Fin 256 → ReceiverChunk}
  {senders senders' : SenderChunk} {s : Fin 256}

theorem ofShard_append (l l' : ReceiverChunk) :
    ofShard itemHash s (l ++ l') = ofShard itemHash s l ++ ofShard itemHash s l' :=
  List.filter_append l l'

theorem mem_ofShard {note : Utxo × FullIncomingNote} {l : ReceiverChunk} :
    note ∈ ofShard itemHash s l ↔ note ∈ l ∧ noteShard itemHash note = some s := by
  simp [ofShard]

theorem ofShard_flatMap {parts : Fin 256 → ReceiverChunk}
    (hparts : ∀ k, ∀ note ∈ parts k, noteShard itemHash note = some k) {keys : List (Fin 256)}
    (hkeys : keys.Nodup) (s : Fin 256) :
    ofShard itemHash s (keys.flatMap parts) = if s ∈ keys then parts s else [] := by
  induction keys with
  | nil => rfl
  | cons k keys ih =>
    have ⟨hk, hrest⟩ := List.nodup_cons.mp hkeys
    rw [List.flatMap_cons, ofShard_append, ih hrest]
    by_cases hs : s = k
    · subst hs
      have hall : ofShard itemHash s (parts s) = parts s :=
        List.filter_eq_self.mpr fun note hnote => decide_eq_true (hparts s note hnote)
      simp [hall, hk]
    · have hnone : ofShard itemHash s (parts k) = [] := by
        refine List.filter_eq_nil_iff.mpr fun note hnote => ?_
        simp [hparts k note hnote, Ne.symm hs]
      simp [hnone, hs]

theorem Wallet.synced_empty : Wallet.empty.Synced itemHash receivers senders where
  received s := List.nil_prefix
  counted s := rfl
  sharded note hnote := by cases hnote
  sent := List.nil_prefix
  sentCounted := rfl

theorem Wallet.Synced.grow (h : w.Synced itemHash receivers senders)
    (hreceivers : ∀ s, receivers s <+: receivers' s) (hsenders : senders <+: senders') :
    w.Synced itemHash receivers' senders' where
  received s := (h.received s).trans (hreceivers s)
  counted := h.counted
  sharded := h.sharded
  sent := h.sent.trans hsenders
  sentCounted := h.sentCounted

/-- Each note and each nullifier came once. -/
theorem Wallet.Synced.nodup (h : w.Synced itemHash receivers senders)
    (hp : LedgerNotes itemHash p receivers senders) :
    (w.receivers.map Prod.fst).Nodup ∧ (w.senders.map Prod.fst).Nodup := by
  constructor
  · rw [List.Nodup, List.pairwise_map, List.pairwise_iff_forall_sublist]
    intro note note' hsub heq
    obtain ⟨s, hs⟩ := h.sharded note (hsub.subset (by simp))
    have hs' : noteShard itemHash note' = some s := by
      rw [noteShard, ← heq]
      exact hs
    have hboth : ofShard itemHash s [note, note'] = [note, note'] := by simp [ofShard, hs, hs']
    have hshard : [note, note'].Sublist (ofShard itemHash s w.receivers) := by
      rw [← hboth]
      exact hsub.filter _
    have hnodup := hp.distinct s
    rw [List.Nodup, List.pairwise_map, List.pairwise_iff_forall_sublist] at hnodup
    exact hnodup (hshard.trans (h.received s).sublist) heq
  · exact hp.unspent.sublist (h.sent.sublist.map Prod.fst)

/-- What one pull hands out: the next notes of each shard and the next nullifiers. -/
theorem pullLedgerDiff_spec (hp : LedgerNotes itemHash p receivers senders)
    (h : w.Synced itemHash receivers senders) (maxReceivers maxSenders : ℕ) :
    ∃ parts part, (Pallet.pullLedgerDiff p w.checkpoint maxReceivers maxSenders).receivers =
        (List.finRange 256).flatMap parts ∧
      (Pallet.pullLedgerDiff p w.checkpoint maxReceivers maxSenders).senders = part ∧
      (∀ s, ofShard itemHash s w.receivers ++ parts s <+: receivers s) ∧
      w.senders ++ part <+: senders ∧
      ((Pallet.pullLedgerDiff p w.checkpoint maxReceivers maxSenders).shouldContinue = false →
        (∀ s, ofShard itemHash s w.receivers ++ parts s = receivers s) ∧
          w.senders ++ part = senders) ∧
      ((Pallet.pullLedgerDiff p w.checkpoint maxReceivers maxSenders).shouldContinue = true →
        0 < maxReceivers → 0 < maxSenders →
          0 < ((List.finRange 256).flatMap parts).length + part.length) := by
  obtain ⟨moreReceivers, parts, hr, hpages⟩ := Pallet.pullShards_pages hp.shards
    w.checkpoint.receiverIndex (List.nodup_finRange 256) []
    (Nat.zero_add (min maxReceivers Pallet.pullMaxReceiverUpdateSize))
  obtain ⟨moreSenders, part, hs, hpage⟩ := Pallet.pullSenderLoop_page hp.nullifiers
    (min maxSenders Pallet.pullMaxSenderUpdateSize) w.checkpoint.senderIndex []
  have htake : ∀ s, (receivers s).take (w.checkpoint.receiverIndex s) =
      ofShard itemHash s w.receivers := by
    intro s
    rw [h.counted s]
    exact (List.prefix_iff_eq_take.mp (h.received s)).symm
  have htake' : senders.take w.checkpoint.senderIndex = w.senders := by
    rw [h.sentCounted]
    exact (List.prefix_iff_eq_take.mp h.sent).symm
  rw [List.nil_append] at hr hs
  have hdiff : Pallet.pullLedgerDiff p w.checkpoint maxReceivers maxSenders =
      { Pallet.pullLedgerDiff p w.checkpoint maxReceivers maxSenders with
        shouldContinue := moreReceivers || moreSenders
        receivers := (List.finRange 256).flatMap parts
        senders := part } := by
    simp only [Pallet.pullLedgerDiff, Pallet.pullReceivers, Pallet.pullSenders, hr, hs]
  rw [hdiff]
  refine ⟨parts, part, rfl, rfl, fun s => ?_, ?_, ?_, ?_⟩
  · rw [← htake]
    exact hpages.next s (List.mem_finRange s)
  · rw [← htake']
    exact hpage.next
  · intro hstop
    obtain ⟨hmr, hms⟩ := Bool.or_eq_false_iff.mp hstop
    constructor
    · intro s
      rw [← htake]
      exact hpages.complete hmr s (List.mem_finRange s)
    · rw [← htake']
      exact hpage.complete hms
  · intro hmore hpos hpos'
    rcases (Bool.or_eq_true _ _).mp hmore with hmr | hms
    · have hfull := hpages.full hmr
      have hsize : 0 < Pallet.pullMaxReceiverUpdateSize := by decide
      omega
    · have hfull := hpage.full hms
      have hsize : 0 < Pallet.pullMaxSenderUpdateSize := by decide
      omega

/-- The wallet has everything the ledger holds. -/
structure Wallet.Complete (w : Wallet) (p : PayStorage) : Prop where
  receivers : ∀ s i note, p.shards.get (s, i) = some note → note ∈ w.receivers
  senders : ∀ i sender, p.nullifierSetInsertionOrder.get i = some sender → sender ∈ w.senders

/-- The number of notes and nullifiers that a checkpoint counts. -/
def Checkpoint.total (checkpoint : Checkpoint) : ℕ :=
  (∑ s, checkpoint.receiverIndex s) + checkpoint.senderIndex

/-- The wallet after a pull. -/
def Wallet.pull (itemHash : c.ItemHash) (p : PayStorage) (w : Wallet)
    (maxReceivers maxSenders : ℕ) : Wallet :=
  w.receive itemHash (Pallet.pullLedgerDiff p w.checkpoint maxReceivers maxSenders)

/-- A pull keeps the wallet in step, answers that there is no more only when it has everything, and
otherwise moves on. -/
theorem Wallet.Synced.pull (hp : LedgerNotes itemHash p receivers senders)
    (h : w.Synced itemHash receivers senders) (maxReceivers maxSenders : ℕ) :
    (w.pull itemHash p maxReceivers maxSenders).Synced itemHash receivers senders ∧
      ((Pallet.pullLedgerDiff p w.checkpoint maxReceivers maxSenders).shouldContinue = false →
        (w.pull itemHash p maxReceivers maxSenders).Complete p) ∧
      ((Pallet.pullLedgerDiff p w.checkpoint maxReceivers maxSenders).shouldContinue = true →
        0 < maxReceivers → 0 < maxSenders →
          w.checkpoint.total < (w.pull itemHash p maxReceivers maxSenders).checkpoint.total) := by
  obtain ⟨parts, part, hr, hs, hnext, hnext', hstop, hmore⟩ :=
    pullLedgerDiff_spec hp h maxReceivers maxSenders
  have hplaced : ∀ k, ∀ note ∈ parts k, noteShard itemHash note = some k := by
    intro k note hnote
    exact hp.placed k note ((hnext k).subset (List.mem_append_right _ hnote))
  have hparts : ∀ s, ofShard itemHash s ((List.finRange 256).flatMap parts) = parts s := by
    intro s
    rw [ofShard_flatMap hplaced (List.nodup_finRange 256), if_pos (List.mem_finRange s)]
  have hshard : ∀ s, ofShard itemHash s (w.pull itemHash p maxReceivers maxSenders).receivers =
      ofShard itemHash s w.receivers ++ parts s := by
    intro s
    rw [Wallet.pull, Wallet.receive, hr, ofShard_append, hparts]
  have hsenders : (w.pull itemHash p maxReceivers maxSenders).senders = w.senders ++ part := by
    rw [Wallet.pull, Wallet.receive, hs]
  refine ⟨⟨?_, ?_, ?_, ?_, ?_⟩, ?_, ?_⟩
  · intro s
    rw [hshard]
    exact hnext s
  · intro s
    rw [hshard, List.length_append, ← h.counted s]
    simp only [Wallet.pull, Wallet.receive, hr, hparts]
  · intro note hnote
    rw [Wallet.pull, Wallet.receive, hr] at hnote
    rcases List.mem_append.mp hnote with hnote | hnote
    · exact h.sharded note hnote
    · obtain ⟨k, -, hk⟩ := List.mem_flatMap.mp hnote
      exact ⟨k, hplaced k note hk⟩
  · rw [hsenders]
    exact hnext'
  · rw [hsenders, List.length_append, ← h.sentCounted]
    simp only [Wallet.pull, Wallet.receive, hs]
  · intro hfalse
    have ⟨hall, hall'⟩ := hstop hfalse
    constructor
    · intro s i note hget
      have hmem : note ∈ receivers s := ((hp.shards s).mem_iff note).mpr ⟨i, hget⟩
      rw [← hall s, ← hshard s] at hmem
      exact (mem_ofShard.mp hmem).1
    · intro i sender hget
      rw [hsenders, hall']
      exact (hp.nullifiers.mem_iff sender).mpr ⟨i, hget⟩
  · intro htrue hpos hpos'
    have hgrow := hmore htrue hpos hpos'
    have hflat : ((List.finRange 256).flatMap parts).length = ∑ s, (parts s).length := by
      rw [List.length_flatMap, Fin.sum_univ_def]
    have htotal : (w.pull itemHash p maxReceivers maxSenders).checkpoint.total =
        w.checkpoint.total + ∑ s, (parts s).length + part.length := by
      simp only [Wallet.pull, Wallet.receive, Checkpoint.total, hr, hs, hparts,
        Finset.sum_add_distrib]
      omega
    omega

theorem Wallet.Synced.total_le (h : w.Synced itemHash receivers senders) :
    w.checkpoint.total ≤ (∑ s, (receivers s).length) + senders.length := by
  have hreceivers : ∑ s, w.checkpoint.receiverIndex s ≤ ∑ s, (receivers s).length := by
    apply Finset.sum_le_sum
    intro s _
    rw [h.counted s]
    exact (h.received s).length_le
  have hsenders := h.sent.length_le
  rw [← h.sentCounted] at hsenders
  rw [Checkpoint.total]
  omega

/-- The wallet after `n` pulls from a ledger that does not change. -/
def Wallet.pulls (itemHash : c.ItemHash) (p : PayStorage) (bounds : ℕ → ℕ × ℕ) (w : Wallet) :
    ℕ → Wallet
  | 0 => w
  | n + 1 => (w.pulls itemHash p bounds n).pull itemHash p (bounds n).1 (bounds n).2

/-- Pulling from a ledger that does not change comes to an end. -/
theorem Wallet.Synced.terminates (hp : LedgerNotes itemHash p receivers senders)
    (h : w.Synced itemHash receivers senders) {bounds : ℕ → ℕ × ℕ}
    (hbounds : ∀ n, 0 < (bounds n).1 ∧ 0 < (bounds n).2) :
    ∃ n, (Pallet.pullLedgerDiff p (w.pulls itemHash p bounds n).checkpoint (bounds n).1
      (bounds n).2).shouldContinue = false := by
  by_contra hnever
  simp only [not_exists, Bool.not_eq_false] at hnever
  have hsynced : ∀ n, (w.pulls itemHash p bounds n).Synced itemHash receivers senders := by
    intro n
    induction n with
    | zero => exact h
    | succ n ih => exact (ih.pull hp (bounds n).1 (bounds n).2).1
  have hgrow : ∀ n, n ≤ (w.pulls itemHash p bounds n).checkpoint.total := by
    intro n
    induction n with
    | zero => exact Nat.zero_le _
    | succ n ih =>
      have ⟨hpos, hpos'⟩ := hbounds n
      have hlt := ((hsynced n).pull hp (bounds n).1 (bounds n).2).2.2 (hnever n) hpos hpos'
      exact Nat.lt_of_le_of_lt ih hlt
  have hle := (hsynced ((∑ s, (receivers s).length) + senders.length + 1)).total_le
  have hge := hgrow ((∑ s, (receivers s).length) + senders.length + 1)
  omega

end Notes

section Runs
variable {R : Runtime}

/-- A step of a ledger with a wallet: others write to the ledger, or the wallet pulls. -/
inductive SyncMove (R : Runtime) where
  | ledger (m : Move R)
  | pull (maxReceivers maxSenders : ℕ)

def SyncMove.next (itemHash : R.crypto.ItemHash) (x : State R × Wallet) :
    SyncMove R → State R × Wallet
  | .ledger m => (m.next x.1, x.2)
  | .pull maxReceivers maxSenders => (x.1, x.2.pull itemHash x.1.pay maxReceivers maxSenders)

def SyncMove.Allowed (x : State R × Wallet) : SyncMove R → Prop
  | .ledger m => m.Allowed x.1
  | .pull _ _ => True

variable {model : R.crypto.Model} {itemHash : R.crypto.ItemHash} {s₀ s s' : State R}
  {tr : History R}

section History
variable (hR : R.Lawful) (hm : loadModel R.crypto = .ok model)
  (hk : loadItemHash R.crypto = .ok itemHash) (h₀ : s₀.pay = .genesis)
  (h : Run Move.next Move.Allowed s₀ tr s)
include hR hm hk h₀ h

theorem run_ledgerNotes : ∃ receivers senders, LedgerNotes itemHash s.pay receivers senders := by
  have hhist := run_shardHistory hR hm hk h₀ h
  obtain ⟨senders, -, hledger⟩ := run_nullifierLedger hR (h₀ ▸ genesis_nullifierLedger) h
  have hlists : ∀ s', ∃ bs, Lists (fun i => s.pay.shards.get (s', i)) bs := by
    intro s'
    obtain ⟨bs, -, hbs, -⟩ := hhist.appended.shard_lists hR.crypto s'
    exact ⟨bs, hbs⟩
  choose receivers hreceivers using hlists
  have hinv := hhist.appended.invariant hR.crypto hhist.distinct
  refine ⟨receivers, [] ++ senders, hreceivers, ?_, ?_, hledger.lists, hledger.nodup⟩
  · intro s' note hnote
    obtain ⟨i, hi⟩ := ((hreceivers s').mem_iff note).mp hnote
    obtain ⟨u, hu, hs⟩ := hinv.placed s' i note hi
    rw [noteShard, hu, ← hs]
    rfl
  · intro s'
    refine (hreceivers s').nodup_of_unique fun i j v w hi hj heq => ?_
    exact (hinv.once s' i s' j v w hi hj heq).2

/-- The notes of a ledger are the first ones of what it holds later. -/
theorem run_ledgerNotes_prefix {tr' : History R} (h' : Run Move.next Move.Allowed s tr' s')
    {receivers receivers' : Fin 256 → ReceiverChunk} {senders senders' : SenderChunk}
    (hp : LedgerNotes itemHash s.pay receivers senders)
    (hp' : LedgerNotes itemHash s'.pay receivers' senders') :
    (∀ i, receivers i <+: receivers' i) ∧ senders <+: senders' := by
  have hhist := run_shardHistory hR hm hk h₀ h
  have hhist' := run_shardHistory hR hm hk h₀ (h.append h')
  rw [postedBatches_append] at hhist'
  obtain ⟨l, -, hledger⟩ := run_nullifierLedger hR (h₀ ▸ genesis_nullifierLedger) h
  obtain ⟨l', -, hledger'⟩ := run_nullifierLedger hR hledger h'
  constructor
  · intro i
    apply (hp.shards i).prefix_of_kept (hp'.shards i)
    exact fun j note hj => hhist.shards_kept hR.crypto hhist' (List.prefix_append _ _) i j note hj
  · apply hp.nullifiers.prefix_of_kept hp'.nullifiers
    exact fun j sender hj =>
      hledger.lists.get_of_prefix hledger'.lists (List.prefix_append _ l') hj

end History

/-- In every history of pulls between writes the wallet stays in step with the ledger. -/
theorem run_synced (hR : R.Lawful) (hm : loadModel R.crypto = .ok model)
    (hk : loadItemHash R.crypto = .ok itemHash) {w : Wallet}
    {tr : List ((State R × Wallet) × SyncMove R)} (h₀ : Reachable s₀)
    (h : Run (SyncMove.next itemHash) SyncMove.Allowed (s₀, .empty) tr (s, w)) :
    Reachable s ∧ ∀ receivers senders, LedgerNotes itemHash s.pay receivers senders →
      w.Synced itemHash receivers senders := by
  generalize hx : (s, w) = x at h
  induction h generalizing s w with
  | nil =>
    obtain ⟨rfl, rfl⟩ := Prod.mk.inj hx
    exact ⟨h₀, fun _ _ _ => Wallet.synced_empty⟩
  | @snoc tr x m _ hallowed ih =>
    obtain ⟨s₁, w₁⟩ := x
    obtain ⟨⟨sg, tr₁, hg, hrun⟩, hsynced⟩ := ih rfl
    cases m with
    | pull maxReceivers maxSenders =>
      obtain ⟨rfl, rfl⟩ := Prod.mk.inj hx
      refine ⟨⟨sg, tr₁, hg, hrun⟩, fun receivers senders hp => ?_⟩
      exact ((hsynced receivers senders hp).pull hp maxReceivers maxSenders).1
    | ledger m =>
      obtain ⟨rfl, rfl⟩ := Prod.mk.inj hx
      have hmove : Run Move.next Move.Allowed s₁ ([] ++ [(s₁, m)]) (m.next s₁) :=
        .snoc .nil hallowed
      refine ⟨⟨sg, _, hg, hrun.append hmove⟩, fun receivers senders hp => ?_⟩
      obtain ⟨receivers₁, senders₁, hp₁⟩ := run_ledgerNotes hR hm hk hg hrun
      have ⟨hpre, hpre'⟩ := run_ledgerNotes_prefix hR hm hk hg hrun hmove hp₁ hp
      exact (hsynced receivers₁ senders₁ hp₁).grow hpre hpre'

/-- What a wallet can rely on at a ledger. -/
structure FullSync (itemHash : R.crypto.ItemHash) (p : PayStorage) (w : Wallet) : Prop where
  once : (w.receivers.map Prod.fst).Nodup ∧ (w.senders.map Prod.fst).Nodup
  stored : ∀ note ∈ w.receivers, ∃ i k, p.shards.get (i, k) = some note
  receivers : ∀ i k note, (ofShard itemHash i w.receivers)[k]? = some note →
    p.shards.get (i, k) = some note
  senders : ∀ k sender, w.senders[k]? = some sender →
    p.nullifierSetInsertionOrder.get k = some sender
  complete : ∀ maxReceivers maxSenders,
    (Pallet.pullLedgerDiff p w.checkpoint maxReceivers maxSenders).shouldContinue = false →
      (w.pull itemHash p maxReceivers maxSenders).Complete p
  ends : ∀ bounds : ℕ → ℕ × ℕ, (∀ n, 0 < (bounds n).1 ∧ 0 < (bounds n).2) →
    ∃ n, (Pallet.pullLedgerDiff p (w.pulls itemHash p bounds n).checkpoint (bounds n).1
      (bounds n).2).shouldContinue = false

/-- Pulls between writes deliver each note and each nullifier at most once and in order, deliver
all of them when they answer that there is no more, and come to that answer on a fixed ledger. -/
theorem full_sync (hR : R.Lawful) (hm : loadModel R.crypto = .ok model)
    (hk : loadItemHash R.crypto = .ok itemHash) {w : Wallet}
    {tr : List ((State R × Wallet) × SyncMove R)} (h₀ : Reachable s₀)
    (h : Run (SyncMove.next itemHash) SyncMove.Allowed (s₀, .empty) tr (s, w)) :
    FullSync itemHash s.pay w := by
  have ⟨⟨sg, trg, hg, hrun⟩, hall⟩ := run_synced hR hm hk h₀ h
  obtain ⟨receivers, senders, hp⟩ := run_ledgerNotes hR hm hk hg hrun
  have hsynced := hall receivers senders hp
  constructor
  · exact hsynced.nodup hp
  · intro note hnote
    obtain ⟨i, hi⟩ := hsynced.sharded note hnote
    have hmem : note ∈ receivers i := (hsynced.received i).subset (mem_ofShard.mpr ⟨hnote, hi⟩)
    obtain ⟨k, hk'⟩ := ((hp.shards i).mem_iff note).mp hmem
    exact ⟨i, k, hk'⟩
  · intro i k note hnote
    exact Lists.get_of_prefix (fun _ => rfl) (hp.shards i) (hsynced.received i) hnote
  · intro k sender hsender
    exact Lists.get_of_prefix (fun _ => rfl) hp.nullifiers hsynced.sent hsender
  · intro maxReceivers maxSenders hfalse
    exact (hsynced.pull hp maxReceivers maxSenders).2.1 hfalse
  · intro bounds hbounds
    exact hsynced.terminates hp hbounds

end Runs

section Witness
open Sample

/-- Every move of the history is followed by a pull of at most one note and one nullifier. -/
def syncMoves : List (SyncMove runtime) := moves.flatMap fun m => [.ledger m, .pull 1 1]

def syncNext : State runtime × Wallet → SyncMove runtime → State runtime × Wallet :=
  SyncMove.next ()

def syncFinal : State runtime × Wallet := syncMoves.foldl syncNext (start, .empty)

theorem full_sync_sample : FullSync (R := runtime) () syncFinal.1.pay syncFinal.2 := by
  have hrun : Run syncNext SyncMove.Allowed (start, .empty)
      (trace syncNext (start, .empty) syncMoves) syncFinal := by
    refine Run.play fun x hx => ?_
    obtain ⟨m, hm, hx⟩ := List.mem_flatMap.mp (mem_of_trace hx)
    obtain ⟨origin, call, rfl⟩ := moves_calls hm
    rcases List.mem_pair.mp hx with heq | heq
    all_goals
      rw [heq]
      trivial
  generalize syncFinal = x at hrun ⊢
  exact full_sync runtime_lawful rfl rfl start_reachable hrun

end Witness

end ZkNft
