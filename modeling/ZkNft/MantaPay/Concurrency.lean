import ZkNft.MantaPay.Durability
import ZkNft.MantaPay.NullifierHistory

/-! Private transfers that are pending together: which batches of them the ledger takes, and why
their order does not matter. -/

namespace ZkNft
open TransferLedger ProxyLedger

/-- The trees of the library take exactly `n` leaves. -/
def Crypto.Capacity (c : Crypto) (n : ℕ) : Prop :=
  ∀ model leafDigest path item, (c.insert model leafDigest path item).isSome = true ↔
    (if leafDigest.isSome then path.leafIndex + 1 else 0) < n

section Leaves
variable {c : Crypto} {n : ℕ} {model : c.Model} {itemHash : c.ItemHash} {p p' : PayStorage}
  {es fs : List (Entry c)} {shard : Fin 256}

/-- A tree takes a non-empty list of entries exactly if its leaves and theirs fit. -/
theorem WorkingTree.insertAll_isSome_iff (hc : c.Lawful) (hn : c.Capacity n) {t : WorkingTree c}
    (hne : es ≠ []) :
    (t.insertAll model itemHash es).isSome = true ↔ t.size + es.length ≤ n := by
  induction es generalizing t with
  | nil => exact absurd rfl hne
  | cons e es ih =>
    have hone : (t.insert model itemHash e).isSome = true ↔ t.size < n := by
      rw [WorkingTree.insert, Option.isSome_map, hn, WorkingTree.size]
    rw [insertAll_cons, List.length_cons]
    cases h : t.insert model itemHash e with
    | none =>
      rw [h] at hone
      simp at hone ⊢
      omega
    | some t₁ =>
      rw [h] at hone
      have hsize := (WorkingTree.insert_spec hc h).2.2.1
      have hlt : t.size < n := hone.mp rfl
      rw [Option.bind_some]
      by_cases hes : es = []
      · subst hes
        simp [insertAll]
        omega
      · rw [ih hes, hsize]
        omega

/-- Appended entries are counted by the trees of their shards. -/
theorem ProxyLedger.Appended.leaves (hc : c.Lawful) (h : Appended model itemHash p p' es) :
    (p'.shardTree shard).leaves =
      (p.shardTree shard).leaves + (onShard itemHash shard es).length := by
  by_cases he : onShard itemHash shard es = []
  · rw [h.shardTree_idle he, he]
    rfl
  · obtain ⟨t, t', bs, stored, hd, hi, -, hst, htree, -⟩ := (h.shard shard).grown he
    have hshard : p'.shardTree shard = stored := by
      unfold PayStorage.shardTree
      rw [htree]
      rfl
    obtain ⟨_, hleaf, hindex⟩ := decodeTree_stored hc he hi hst
    rw [hshard, UtxoMerkleTreePath.leaves, if_pos hleaf, hindex, decodeTree_leaves hd]

/-- Entries that had room once have room later exactly if the leaves fit. -/
theorem ProxyLedger.HasRoom.later_iff (hc : c.Lawful) (hn : c.Capacity n)
    (hm : loadModel c = .ok model) (hk : loadItemHash c = .ok itemHash) (hroom : HasRoom p es)
    (h : Appended model itemHash p p' fs) :
    HasRoom p' es ↔ ∀ shard, onShard itemHash shard es ≠ [] →
      (p.shardTree shard).leaves + (onShard itemHash shard fs).length +
        (onShard itemHash shard es).length ≤ n := by
  obtain ⟨model', itemHash', hm', hk', hroom⟩ := hroom
  obtain rfl := Except.ok.inj (hm.symm.trans hm')
  obtain rfl := Except.ok.inj (hk.symm.trans hk')
  constructor
  · rintro ⟨model', itemHash', hm', hk', hroom'⟩ shard hne
    obtain rfl := Except.ok.inj (hm.symm.trans hm')
    obtain rfl := Except.ok.inj (hk.symm.trans hk')
    obtain ⟨t, t', hd, hi⟩ := hroom' shard hne
    have hfit := (WorkingTree.insertAll_isSome_iff hc hn hne).mp (Option.isSome_of_mem hi)
    rwa [decodeTree_leaves hd, h.leaves hc] at hfit
  · intro hfit
    refine ⟨model, itemHash, hm, hk, fun shard hne => ?_⟩
    have hreadable : ∃ t : WorkingTree c, decodeTree (p'.shardTree shard) = .ok t := by
      obtain ⟨t, -, hd, -⟩ := hroom shard hne
      by_cases hf : onShard itemHash shard fs = []
      · exact ⟨t, h.shardTree_idle hf ▸ hd⟩
      · obtain ⟨t₁, -, hd₁⟩ := h.shardTree_grown hc hf hd
        exact ⟨_, hd₁⟩
    obtain ⟨t, hd⟩ := hreadable
    have hsome : (t.insertAll model itemHash (onShard itemHash shard es)).isSome = true := by
      rw [WorkingTree.insertAll_isSome_iff hc hn hne, decodeTree_leaves hd, h.leaves hc]
      exact hfit shard hne
    obtain ⟨t', ht'⟩ := Option.isSome_iff_exists.mp hsome
    exact ⟨t, t', hd, ht'⟩

end Leaves

variable {R : Runtime}

/-- A pending private transfer with its decoded post. -/
abbrev PendingOrder (R : Runtime) := PrivateOrder R × Config.TransferPost R.crypto.toFields

/-- The state after the orders have been handed in, one after the other. -/
def afterBatch (s : State R) (batch : List (PendingOrder R)) : State R :=
  (batch.map fun x => x.1.move).foldl Move.next s

/-- Each order is accepted in its turn. -/
def Accepts (s : State R) : List (PendingOrder R) → Prop
  | [] => True
  | x :: batch => x.1.move.accepted s = some x.2 ∧ Accepts (x.1.move.next s) batch

/-- The UTXOs of the orders, with their notes. -/
def batchEntries (batch : List (PendingOrder R)) : List (Entry R.crypto) :=
  batch.flatMap fun x => entries x.2.body

/-- No two orders conflict. -/
def Compatible (batch : List (PendingOrder R)) : Prop :=
  batch.Pairwise fun x y => ¬ Conflicts x.2.body y.2.body

/-- The shards that the orders go to have leaves for all of them. -/
def Fits (itemHash : R.crypto.ItemHash) (n : ℕ) (p : PayStorage)
    (batch : List (PendingOrder R)) : Prop :=
  ∀ shard, onShard itemHash shard (batchEntries batch) ≠ [] →
    (p.shardTree shard).leaves + (onShard itemHash shard (batchEntries batch)).length ≤ n

section Order
variable {s : State R} {x : PendingOrder R} {batch order : List (PendingOrder R)}

theorem Compatible.perm (h : Compatible batch) (hp : order.Perm batch) : Compatible order := by
  refine (hp.pairwise_iff fun {a b} hab hba => hab ?_).mpr h
  exact Conflicts.symm hba

theorem compatible_snoc : Compatible (batch ++ [x]) ↔
    Compatible batch ∧ ∀ y ∈ batch, ¬ Conflicts y.2.body x.2.body := by
  rw [Compatible, List.pairwise_append]
  simp [Compatible]

theorem Fits.perm {itemHash : R.crypto.ItemHash} {n : ℕ} {p : PayStorage}
    (h : Fits itemHash n p batch) (hp : order.Perm batch) : Fits itemHash n p order := by
  intro shard hne
  have hsame : (onShard itemHash shard (batchEntries order)).Perm
      (onShard itemHash shard (batchEntries batch)) := (hp.flatMap_right _).filter _
  rw [hsame.length_eq]
  refine h shard fun hnil => hne ?_
  rw [hnil] at hsame
  exact hsame.eq_nil

theorem afterBatch_append (order' : List (PendingOrder R)) :
    afterBatch s (batch ++ order') = afterBatch (afterBatch s batch) order' := by
  simp [afterBatch]

theorem accepts_snoc : Accepts s (batch ++ [x]) ↔
    Accepts s batch ∧ x.1.move.accepted (afterBatch s batch) = some x.2 := by
  induction batch generalizing s with
  | nil => simp [Accepts, afterBatch]
  | cons y batch ih =>
    rw [List.cons_append, Accepts, ih, Accepts, and_assoc]
    rfl

/-- Orders that are all accepted are a history with their posts. -/
theorem Accepts.run (h : Accepts s batch) : ∃ tr,
    Run Move.next Move.Allowed s tr (afterBatch s batch) ∧ posts tr = batch.map (·.2) := by
  induction batch using List.reverseRecOn with
  | nil => exact ⟨[], .nil, rfl⟩
  | append_singleton batch x ih =>
    obtain ⟨hbatch, hx⟩ := accepts_snoc.mp h
    obtain ⟨tr, hrun, hposts⟩ := ih hbatch
    have hallowed : Move.Allowed (afterBatch s batch) x.1.move := trivial
    refine ⟨tr ++ [(afterBatch s batch, x.1.move)], ?_, ?_⟩
    · rw [afterBatch_append]
      exact hrun.snoc hallowed
    · rw [posts_append, hposts, List.map_append]
      simp [posts, hx]

end Order

section Run
variable {s s' : State R} {tr : History R} {model : R.crypto.Model} {itemHash : R.crypto.ItemHash}

/-- A history appends the UTXOs of its posts to the shards. -/
theorem run_appended (hc : R.crypto.Lawful) (hm : loadModel R.crypto = .ok model)
    (hk : loadItemHash R.crypto = .ok itemHash) (h : Run Move.next Move.Allowed s tr s') :
    Appended model itemHash s.pay s'.pay (registered tr) := by
  induction h with
  | nil => exact .refl _
  | @snoc tr s₁ m _ hm' ih =>
    rw [registered_snoc]
    rcases Move.next_pay hm' with ⟨hnone, hpay⟩ | ⟨post, hsome, -, hwrites⟩
    · simpa [hnone, hpay] using ih
    · simpa [hsome] using ih.trans hc (writes_appended hc hm hk hwrites).1

theorem spendLoop_count {c : Crypto} {p p' : PayStorage} {index i j : ℕ}
    {es : List (c.Fp × Config.Nullifier c.toFields)}
    (h : spendLoop index i es p = (.ok j, p')) : j = i + es.length := by
  induction es generalizing i p with
  | nil => exact (Tx.pure_ok.mp h).1
  | cons e es ih =>
    simp only [spendLoop, Tx.read_bind_ok, Tx.modify_bind_ok] at h
    obtain ⟨x, -, note, -, h⟩ := h
    rw [ih h, List.length_cons]
    omega

theorem spendAll_size {c : Crypto} {p p' : PayStorage} {u : PUnit}
    {es : List (c.Fp × Config.Nullifier c.toFields)} (h : spendAll es p = (.ok u, p')) :
    p'.nullifierSetSize = p.nullifierSetSize + es.length := by
  simp only [spendAll, Tx.read_bind_ok] at h
  obtain ⟨index, hindex, h⟩ := h
  obtain rfl := Exec.ok.inj hindex
  obtain ⟨j, p₁, hloop, h⟩ := Tx.bind_run_ok.mp h
  have hcount := spendLoop_count hloop
  have hsize := (spendLoop_frame hloop).2
  split_ifs at h with hne
  · obtain rfl := Tx.modify_ok.mp h
    show _ + j = _
    omega
  · obtain ⟨-, rfl⟩ := Tx.pure_ok.mp h
    omega

/-- The counter counts the nullifiers that a history spends. -/
theorem run_nullifierSetSize (h : Run Move.next Move.Allowed s tr s') :
    s'.pay.nullifierSetSize = s.pay.nullifierSetSize + (spentNullifiers tr).length := by
  induction h with
  | nil => rfl
  | @snoc tr s₁ m _ hm ih =>
    rw [spentNullifiers_snoc, List.length_append]
    rcases Move.next_pay hm with ⟨hnone, hpay⟩ | ⟨post, hsome, -, p₁, hspend, hregister⟩
    · rw [hpay, ih]
      simp [hnone]
    · have hsame := registerAll_sameNullifiers hregister
      rw [hsame.nullifierSetSize, spendAll_size hspend, ih]
      simp [hsome, spends, nullifiers]
      omega

end Run

section Batch
variable {s : State R} {batch order : List (PendingOrder R)} {model : R.crypto.Model}
  {itemHash : R.crypto.ItemHash} {n : ℕ}

/-- The UTXOs registered by accepted orders. -/
theorem registered_of_posts {tr : History R} (h : posts tr = batch.map (·.2)) :
    registered tr = batchEntries batch := by
  rw [registered, postedBatches, h, List.map_map, batchEntries, List.flatMap_def]
  rfl

/-- Orders that are acceptable one by one are accepted one after the other exactly if no two
conflict and the shards have leaves for all. -/
theorem accepts_iff (hR : R.Lawful) (hn : R.crypto.Capacity n)
    (hm : loadModel R.crypto = .ok model) (hk : loadItemHash R.crypto = .ok itemHash)
    (hs : ∀ x ∈ batch, x.1.move.accepted s = some x.2) :
    Accepts s batch ↔ Compatible batch ∧ Fits itemHash n s.pay batch := by
  induction batch using List.reverseRecOn with
  | nil => simp [Accepts, Compatible, Fits, batchEntries, onShard]
  | append_singleton batch x ih =>
    obtain ⟨hbatch, hx⟩ := List.forall_mem_append.mp hs
    have hx : x.1.move.accepted s = some x.2 := hx x (List.mem_singleton_self x)
    have hroom := ((PrivateOrder.accepted_iff hR).mp hx).2.2
    have hentries : batchEntries (batch ++ [x]) = batchEntries batch ++ entries x.2.body := by
      simp [batchEntries]
    have hturn : Accepts s batch → (x.1.move.accepted (afterBatch s batch) = some x.2 ↔
        (∀ shard, onShard itemHash shard (entries x.2.body) ≠ [] →
          (s.pay.shardTree shard).leaves + (onShard itemHash shard (batchEntries batch)).length +
            (onShard itemHash shard (entries x.2.body)).length ≤ n) ∧
          ∀ y ∈ batch, ¬ Conflicts y.2.body x.2.body) := by
      intro h
      obtain ⟨tr, hrun, hposts⟩ := h.run
      have happ := run_appended hR.crypto hm hk hrun
      rw [registered_of_posts hposts] at happ
      rw [PrivateOrder.later_accepted_iff hR hx hrun x.1.signer, hposts, List.forall_mem_map,
        hroom.later_iff hR.crypto hn hm hk happ]
    rw [accepts_snoc, ih hbatch, compatible_snoc]
    constructor
    · rintro ⟨⟨hcomp, hfits⟩, hacc⟩
      obtain ⟨hleaf, hno⟩ := (hturn ((ih hbatch).mpr ⟨hcomp, hfits⟩)).mp hacc
      refine ⟨⟨hcomp, hno⟩, fun shard hne => ?_⟩
      rw [hentries, onShard_append] at hne ⊢
      rw [List.length_append]
      by_cases htouch : onShard itemHash shard (entries x.2.body) = []
      · rw [htouch, List.append_nil] at hne
        simpa [htouch] using hfits shard hne
      · rw [← Nat.add_assoc]
        exact hleaf shard htouch
    · rintro ⟨⟨hcomp, hno⟩, hfits⟩
      have hall : ∀ shard, onShard itemHash shard (batchEntries batch) ≠ [] ∨
          onShard itemHash shard (entries x.2.body) ≠ [] →
          (s.pay.shardTree shard).leaves + (onShard itemHash shard (batchEntries batch)).length +
            (onShard itemHash shard (entries x.2.body)).length ≤ n := by
        intro shard htouch
        have hfit := hfits shard
        rw [hentries, onShard_append, List.length_append, ← Nat.add_assoc] at hfit
        apply hfit
        rw [Ne, List.append_eq_nil_iff, not_and_or]
        exact htouch
      have hbefore : Fits itemHash n s.pay batch := by
        intro shard hne
        have hfit := hall shard (.inl hne)
        omega
      have hacc := (ih hbatch).mpr ⟨hcomp, hbefore⟩
      exact ⟨⟨hcomp, hbefore⟩, (hturn hacc).mpr ⟨fun shard hne => hall shard (.inr hne), hno⟩⟩

/-- The two states agree on what is spent, what is registered and how many leaves each shard has,
and on the public assets and the registry. -/
structure SameLedger (s s' : State R) : Prop where
  nullifiers : s'.pay.nullifierCommitmentSet = s.pay.nullifierCommitmentSet
  nullifierSetSize : s'.pay.nullifierSetSize = s.pay.nullifierSetSize
  utxos : s'.pay.utxoSet = s.pay.utxoSet
  leaves : ∀ shard, (s'.pay.shardTree shard).leaves = (s.pay.shardTree shard).leaves
  world : s'.world = s.world
  registry : s'.registry = s.registry

/-- An accepted private transfer moves no public asset. -/
theorem PrivateOrder.next_world {t : PrivateOrder R} {body : Config.TransferPost R.crypto.toFields}
    (hR : R.Lawful) (h : t.move.accepted s = some body) :
    (t.move.next s).world = s.world ∧ (t.move.next s).registry = s.registry := by
  have hsound := ((accepted_iff hR).mp h).1
  have hq : (Call.privateTransfer t.assetType t.post).posting t.signer.account =
      some ⟨t.assetType, .privateTransfer, some t.signer.account, [], [], t.post⟩ := rfl
  obtain ⟨⟨u, s₁, hrun⟩, -⟩ := (Move.accepted_eq_some hq).mp h
  obtain ⟨-, post, hp⟩ := Call.dispatch_posted hq hrun
  obtain rfl := Except.ok.inj (hp.decoded.symm.trans hsound.decoded)
  have hnext : t.move.next s = s₁ := congrArg Prod.snd hrun
  have hworld := hp.balances
  simp only [hsound.assetId] at hworld
  rw [hnext]
  exact ⟨hworld, hp.registry⟩

theorem Accepts.world (hR : R.Lawful) (h : Accepts s batch) :
    (afterBatch s batch).world = s.world ∧ (afterBatch s batch).registry = s.registry := by
  induction batch generalizing s with
  | nil => exact ⟨rfl, rfl⟩
  | cons x batch ih =>
    obtain ⟨hx, hbatch⟩ := h
    have hnext := PrivateOrder.next_world hR hx
    have hrest := ih hbatch
    exact ⟨hrest.1.trans hnext.1, hrest.2.trans hnext.2⟩

/-- Two orders of one accepted batch end in ledgers that agree. -/
theorem Accepts.sameLedger (hR : R.Lawful) (hm : loadModel R.crypto = .ok model)
    (hk : loadItemHash R.crypto = .ok itemHash) (hperm : order.Perm batch)
    (h : Accepts s batch) (h' : Accepts s order) :
    SameLedger (afterBatch s batch) (afterBatch s order) := by
  obtain ⟨tr, hrun, hposts⟩ := h.run
  obtain ⟨tr', hrun', hposts'⟩ := h'.run
  have htook := run_took hR.crypto hrun
  have htook' := run_took hR.crypto hrun'
  have happ := run_appended hR.crypto hm hk hrun
  have happ' := run_appended hR.crypto hm hk hrun'
  rw [hposts, List.map_map] at htook
  rw [hposts', List.map_map] at htook'
  rw [registered_of_posts hposts] at happ
  rw [registered_of_posts hposts'] at happ'
  have hmem : ∀ body, body ∈ order.map ((·.body) ∘ (·.2)) ↔ body ∈ batch.map ((·.body) ∘ (·.2)) :=
    fun body => (hperm.map _).mem_iff
  have hworld := h.world hR
  have hworld' := h'.world hR
  constructor
  · apply StorageMap.ext_of_containsKey
    intro b
    rw [htook.spent, htook'.spent]
    simp only [hmem]
  · rw [run_nullifierSetSize hrun, run_nullifierSetSize hrun', spentNullifiers, spentNullifiers,
      hposts, hposts', List.flatMap_map, List.flatMap_map]
    rw [(hperm.flatMap_right _).length_eq]
  · apply StorageMap.ext_of_containsKey
    intro u
    rw [htook.registered, htook'.registered]
    simp only [hmem]
  · intro shard
    have hsame : (onShard itemHash shard (batchEntries order)).Perm
        (onShard itemHash shard (batchEntries batch)) := (hperm.flatMap_right _).filter _
    rw [happ.leaves hR.crypto, happ'.leaves hR.crypto, hsame.length_eq]
  · rw [hworld.1, hworld'.1]
  · rw [hworld.2, hworld'.2]

/-- Private transfers that are acceptable one by one are all accepted, in any order, exactly if no
two conflict and the shards have leaves for all; and the order does not show in the ledger. -/
theorem batch_any_order (hR : R.Lawful) (hn : R.crypto.Capacity n)
    (hm : loadModel R.crypto = .ok model) (hk : loadItemHash R.crypto = .ok itemHash)
    (hs : ∀ x ∈ batch, x.1.move.accepted s = some x.2) (hperm : order.Perm batch) :
    (Accepts s order ↔ Compatible batch ∧ Fits itemHash n s.pay batch) ∧
      (Accepts s order →
        Accepts s batch ∧ SameLedger (afterBatch s batch) (afterBatch s order)) := by
  have horder : ∀ x ∈ order, x.1.move.accepted s = some x.2 := fun x hx =>
    hs x (hperm.mem_iff.mp hx)
  have hiff : Accepts s order ↔ Accepts s batch := by
    rw [accepts_iff hR hn hm hk hs, accepts_iff hR hn hm hk horder]
    constructor
    · rintro ⟨hcomp, hfits⟩
      exact ⟨hcomp.perm hperm.symm, hfits.perm hperm.symm⟩
    · rintro ⟨hcomp, hfits⟩
      exact ⟨hcomp.perm hperm, hfits.perm hperm⟩
  rw [← accepts_iff hR hn hm hk hs]
  exact ⟨hiff, fun h => ⟨hiff.mp h, (hiff.mp h).sameLedger hR hm hk hperm h⟩⟩

end Batch

section Witness
open Sample

theorem insert_isSome_iff {leafDigest : Option (Bytes 32)} {path : Config.CurrentPath fields}
    {item : Bytes 32} : (Sample.insert leafDigest path item).isSome = true ↔
      (if leafDigest.isSome then path.leafIndex + 1 else 0) < 2 ^ 19 := by
  unfold Sample.insert
  simp only
  generalize (if leafDigest.isSome then path.leafIndex + 1 else 0) = index
  by_cases hlt : index < 2 ^ 19
  · simp only [if_pos hlt, Option.isSome_some, true_iff]
    exact hlt
  · simp only [if_neg hlt, Option.isSome_none, Bool.false_eq_true, false_iff]
    exact hlt

theorem crypto_capacity : crypto.Capacity (2 ^ 19) := fun _ _ _ _ => insert_isSome_iff

/-- Two private transfers that are pending together. -/
def pendingPair : List (PendingOrder runtime) := [pendingReshape 0 1 20, pendingReshape 1 3 30]

theorem batch_any_order_sample :
    (Accepts start pendingPair.reverse ↔
        Compatible pendingPair ∧ Fits (R := runtime) () (2 ^ 19) start.pay pendingPair) ∧
      (Accepts start pendingPair.reverse → Accepts start pendingPair ∧
        SameLedger (afterBatch start pendingPair) (afterBatch start pendingPair.reverse)) := by
  refine batch_any_order  runtime_lawful crypto_capacity rfl rfl ?_
    (List.reverse_perm pendingPair)
  simp only [pendingPair, List.mem_cons, List.not_mem_nil, or_false, forall_eq_or_imp, forall_eq]
  exact ⟨pendingReshape_accepted (by decide +kernel), pendingReshape_accepted (by decide +kernel)⟩

end Witness

end ZkNft
