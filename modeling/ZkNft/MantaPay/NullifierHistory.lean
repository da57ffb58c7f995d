import ZkNft.MantaPay.Sample

/-! The nullifier ledger over whole histories: it lists what the accepted posts spent, in order
and each nullifier once. -/

namespace ZkNft
open StorageMap TransferLedger

variable {R : Runtime}

/-- The nullifiers a post spends. -/
def nullifiers (body : Config.TransferPostBody R.crypto.toFields) :
    List (Config.Nullifier R.crypto.toFields) :=
  body.senderPosts.map (·.nullifier)

/-- The nullifiers that the accepted posts of a history spend, in order. -/
def spentNullifiers (tr : History R) : List (Config.Nullifier R.crypto.toFields) :=
  (posts tr).flatMap fun post => nullifiers post.body

theorem spentNullifiers_snoc (tr : History R) (x : State R × Move R) :
    spentNullifiers (tr ++ [x]) = spentNullifiers tr ++
      ((x.2.accepted x.1).map fun post => nullifiers post.body).getD [] := by
  unfold spentNullifiers
  rw [posts_append, List.flatMap_append]
  cases h : x.2.accepted x.1 <;> simp [posts, h]

section Step
variable {p p' : PayStorage} {body : Config.TransferPostBody R.crypto.toFields}
  {l bs : List (Bytes 32 × OutgoingNote)}

theorem nullifiers_pairwise (hc : R.crypto.Lawful) (h : Fresh p body) :
    (nullifiers body).Pairwise fun m n => m.commitment ≠ n.commitment := by
  rw [nullifiers, List.pairwise_map]
  exact h.unrelated.imp fun hne he => hne (hc.nullifier_related _ _ he)

/-- The stored commitments of new nullifiers are different and not in the ledger. -/
theorem Fresh.commitments (hc : R.crypto.Lawful) (h : Fresh p body)
    (hb : (nullifiers body).mapM (ProxyLedger.encodeNullifier (c := R.crypto)) = .ok bs) :
    (bs.map Prod.fst).Nodup ∧ ∀ b ∈ bs, p.nullifierCommitmentSet.containsKey b.1 = false := by
  constructor
  · rw [List.Nodup, List.pairwise_map]
    refine Exec.forall₂_pairwise ?_ (Exec.except_mapM_eq_ok.mp hb) (nullifiers_pairwise hc h)
    intro m n b b' hm hn hne he
    have hm' := (ProxyLedger.encodeNullifier_eq_ok.mp hm).1
    have hn' := (ProxyLedger.encodeNullifier_eq_ok.mp hn).1
    rw [he] at hm'
    exact hne (fpEncode_inj hc hm' hn')
  · intro b hmem
    obtain ⟨n, hn, hnb⟩ := Exec.except_mapM_mem hb hmem
    obtain ⟨x, hx, rfl⟩ := List.mem_map.mp hn
    obtain ⟨-, b', hb', hfree⟩ := ProxyLedger.isUnspent_eq_ok.mp (h.unspent x hx)
    obtain rfl := Except.ok.inj (hb'.symm.trans (ProxyLedger.encodeNullifier_eq_ok.mp hnb).1)
    exact hfree

/-- An accepted post appends its nullifiers to the ledger. -/
theorem NullifierLedger.step (hc : R.crypto.Lawful) (hl : NullifierLedger p l)
    (hf : Fresh p body) (hw : Writes body p p') :
    ∃ bs, (nullifiers body).mapM (ProxyLedger.encodeNullifier (c := R.crypto)) = .ok bs ∧
      NullifierLedger p' (l ++ bs) := by
  obtain ⟨p₁, hspend, hregister⟩ := hw
  obtain ⟨bs, hbs, hentries, hsize⟩ :=
    ProxyLedger.spendAll_entries hspend hl.toNullifierEntries hl.size
  have hbs' : (nullifiers body).mapM (ProxyLedger.encodeNullifier (c := R.crypto)) = .ok bs := by
    rw [Exec.except_mapM_eq_ok] at hbs ⊢
    rw [nullifiers, List.forall₂_map_left_iff]
    rw [spends, List.forall₂_map_left_iff] at hbs
    exact hbs
  have hsame := ProxyLedger.registerAll_sameNullifiers hregister
  have ⟨hnodup, hfree⟩ := Fresh.commitments hc hf hbs'
  refine ⟨bs, hbs', ⟨?_, ?_⟩, ?_, ?_⟩
  · rw [hsame.nullifierSetInsertionOrder]
    exact hentries.lists
  · rw [hsame.nullifierCommitmentSet]
    exact hentries.mem
  · rw [hsame.nullifierSetSize]
    exact hsize
  · rw [List.map_append, List.nodup_append']
    refine ⟨hl.nodup, hnodup, ?_⟩
    intro x hx hx'
    obtain ⟨b, hb, rfl⟩ := List.mem_map.mp hx'
    have hin := (hl.mem b.1).mpr hx
    rw [hfree b hb] at hin
    cases hin

end Step

/-- The counter, the ordered map and the set agree. -/
structure NullifierInvariant (p : PayStorage) : Prop where
  keys : ∀ i, (p.nullifierSetInsertionOrder.get i).isSome = true ↔ i < p.nullifierSetSize
  distinct : ∀ i j b b', p.nullifierSetInsertionOrder.get i = some b →
    p.nullifierSetInsertionOrder.get j = some b' → b.1 = b'.1 → i = j
  set : ∀ x, p.nullifierCommitmentSet.containsKey x = true ↔
    ∃ i b, p.nullifierSetInsertionOrder.get i = some b ∧ b.1 = x

theorem NullifierLedger.invariant {p : PayStorage} {l : List (Bytes 32 × OutgoingNote)}
    (h : NullifierLedger p l) : NullifierInvariant p where
  keys i := by
    rw [h.size]
    exact h.lists.isSome_iff i
  distinct i j b b' hi hj he := h.lists.index_unique h.nodup hi hj he
  set x := by
    rw [h.mem, List.mem_map]
    constructor
    · intro ⟨b, hb, hx⟩
      obtain ⟨i, hi⟩ := (h.lists.mem_iff b).mp hb
      exact ⟨i, b, hi, hx⟩
    · intro ⟨i, b, hi, hx⟩
      exact ⟨b, (h.lists.mem_iff b).mpr ⟨i, hi⟩, hx⟩

section Runs
variable (hR : R.Lawful) {s₀ s s' : State R} {tr tr' : History R}
include hR

/-- Over a history the ledger grows by what its accepted posts spend. -/
theorem run_nullifierLedger {l₀ : List (Bytes 32 × OutgoingNote)}
    (h₀ : NullifierLedger s₀.pay l₀) (h : Run Move.next Move.Allowed s₀ tr s) :
    ∃ l, (spentNullifiers tr).mapM (ProxyLedger.encodeNullifier (c := R.crypto)) = .ok l ∧
      NullifierLedger s.pay (l₀ ++ l) := by
  induction h with
  | nil => exact ⟨[], rfl, by simpa using h₀⟩
  | @snoc tr s m _ hm ih =>
    obtain ⟨l, hl, hledger⟩ := ih
    rw [spentNullifiers_snoc]
    rcases Move.next_pay hm with ⟨hnone, hpay⟩ | ⟨post, hsome, hfresh, hwrites⟩
    · refine ⟨l, ?_, by rw [hpay]; exact hledger⟩
      simpa [hnone] using hl
    · obtain ⟨bs, hbs, hledger'⟩ := hledger.step hR.crypto hfresh hwrites
      refine ⟨l ++ bs, ?_, by rw [← List.append_assoc]; exact hledger'⟩
      simpa [hsome] using Exec.except_mapM_append hl hbs

/-- The nullifier ledger of every reachable state is consistent, keeps its entries for ever, is
left alone by calls that fail, and no history spends a nullifier twice. -/
theorem nullifier_invariant (h₀ : s₀.pay = .genesis) (h : Run Move.next Move.Allowed s₀ tr s) :
    NullifierInvariant s.pay ∧
      (∀ tr' s', Run Move.next Move.Allowed s tr' s' → ∀ i b,
        s.pay.nullifierSetInsertionOrder.get i = some b →
        s'.pay.nullifierSetInsertionOrder.get i = some b) ∧
      (∀ (origin : Origin R) (call : Call R), (∀ u, (call.dispatch origin s).1 ≠ .ok u) →
        (call.dispatch origin s).2 = s) ∧
      ((spentNullifiers tr).map (·.commitment)).Nodup := by
  obtain ⟨l, hl, hledger⟩ := run_nullifierLedger hR (h₀ ▸ genesis_nullifierLedger) h
  rw [List.nil_append] at hledger
  refine ⟨hledger.invariant, ?_, fun _ _ hfail => Call.dispatch_rollback hfail, ?_⟩
  · intro tr' s' h' i b hi
    obtain ⟨l', -, hledger'⟩ := run_nullifierLedger hR hledger h'
    exact hledger.lists.get_of_prefix hledger'.lists (List.prefix_append l l') hi
  · rw [List.Nodup, List.pairwise_map]
    have hnodup := hledger.nodup
    rw [List.Nodup, List.pairwise_map] at hnodup
    refine Exec.forall₂_pairwise ?_ (Exec.except_mapM_eq_ok.mp hl).flip hnodup
    intro b b' n n' hb hb' hne he
    have hn := (ProxyLedger.encodeNullifier_eq_ok.mp hb).1
    have hn' := (ProxyLedger.encodeNullifier_eq_ok.mp hb').1
    rw [he] at hn
    exact hne (Except.ok.inj (hn.symm.trans hn'))

end Runs

open Sample in
theorem nullifier_invariant_sample :
    NullifierInvariant final.pay ∧
      (∀ tr' s', Run Move.next Move.Allowed final tr' s' → ∀ i b,
        final.pay.nullifierSetInsertionOrder.get i = some b →
        s'.pay.nullifierSetInsertionOrder.get i = some b) ∧
      (∀ (origin : Origin runtime) (call : Call runtime),
        (∀ u, (call.dispatch origin final).1 ≠ .ok u) → (call.dispatch origin final).2 = final) ∧
      ((spentNullifiers history).map (·.commitment)).Nodup :=
  nullifier_invariant runtime_lawful rfl run_history

end ZkNft
