import ZkNft.AssetManager.Sample
import ZkNft.Lib.Frame
import ZkNft.Lib.Run

/-! Clients that mint NFTs. Each reads the next asset id, which it returns, and submits a batch that
registers the NFT whenever the chain comes to it. -/

namespace ZkNft
namespace AssetManager
namespace CreateNft
open StorageMap

/-- The calls of pallet-uniques in a batch. -/
structure Uniques (R : Runtime) where
  mint : R.World → (who : R.Account) → (collectionId itemId : StandardAssetId) →
    (owner : R.Account) → Except R.DispatchError R.World
  setMetadata : R.World → (who : R.Account) → (collectionId itemId : StandardAssetId) →
    (data : List UInt8) → (isFrozen : Bool) → Except R.DispatchError R.World

/-- The arguments of `createNFT`, and of `createNFTAndSetMetadata` where there is `metadata`. -/
structure Order (R : Runtime) where
  collectionId : StandardAssetId
  itemId : StandardAssetId
  address : R.Account
  signer : R.Account
  /-- The hash of the private address of the wallet. -/
  paddressSha256 : Bytes 32
  metadata : Option (List UInt8)

/-- What a client has submitted, with the asset id that it returns. -/
structure Submission (R : Runtime) extends Order R where
  assetId : StandardAssetId

/-- The chain, and the batches it has not executed yet. -/
structure Net (R : Runtime) where
  chain : State R
  submitted : List (Submission R)

variable {R : Runtime} (U : Uniques R)

/-- A call of another pallet. -/
def onWorld (f : R.World → Except R.DispatchError R.World) : Update R := do
  let world ← Tx.read fun s => .lift ((f s.world).mapError .other)
  Tx.modify fun s => { s with world }

/-- `utility.batch`: a failed call stops the batch, and those before it stand. -/
def batch : List (Update R) → Update R
  | [] => pure ⟨⟩
  | call :: calls => do
    call
    batch calls

namespace Order
variable (self : Order R)

/-- The metadata that is registered. -/
def assetManagerMetadata : R.Metadata :=
  .nonFungible {
    name := (toString self.collectionId.toNat ++ "#" ++ toString self.itemId.toNat).toUTF8.toList
    info := []
    collectionId := self.collectionId
    itemId := self.itemId
    originOwner := self.address
    originZkaddress := self.paddressSha256 }

def batchTx : Update R :=
  let mintExtrinsic := onWorld fun w =>
    U.mint w self.signer self.collectionId self.itemId self.address
  let registerAssetExtrinsic :=
    registerAsset (.signed self.signer) self.address self.assetManagerMetadata
  match self.metadata with
  | none => batch [mintExtrinsic, registerAssetExtrinsic]
  | some metadata =>
    let setMetadataExtrinsic := onWorld fun w =>
      U.setMetadata w self.signer self.collectionId self.itemId metadata false
    batch [mintExtrinsic, registerAssetExtrinsic, setMetadataExtrinsic]

end Order

/-- What can happen: a client creates an NFT, the chain executes one of the batches, or it does
anything else. -/
inductive Step (R : Runtime) where
  | createNFT (order : Order R)
  | execute (i : ℕ)
  | chain (m : Move R)

def Step.next (n : Net R) : Step R → Net R
  | .createNFT order =>
    { n with submitted := n.submitted ++ [{ order with assetId := n.chain.nextAssetId }] }
  | .execute i =>
    match n.submitted[i]? with
    | some submission =>
      { chain := (submission.toOrder.batchTx U n.chain).2, submitted := n.submitted.eraseIdx i }
    | none => n
  | .chain m => { n with chain := m.next n.chain }

/-- The step hands out an asset id. -/
def Step.Allocates (n : Net R) (m : Step R) : Prop :=
  (m.next U n).chain.nextAssetId ≠ n.chain.nextAssetId

section Ids
variable {s s' : State R} {n n' : Net R}

/-- Asset ids only go up. -/
theorem move_le (s : State R) (m : Move R) :
    s.nextAssetId.toNat ≤ (m.next s).nextAssetId.toNat := by
  have hroom : s.nextAssetId ≠ BitVec.allOnes 128 →
      s.nextAssetId.toNat ≤ (s.nextAssetId + 1).toNat := by
    intro hne
    have hlt := s.nextAssetId.isLt
    have hval : s.nextAssetId.toNat ≠ 2 ^ 128 - 1 := by
      intro heq
      apply hne
      rw [← BitVec.toNat_inj, heq, BitVec.toNat_allOnes]
    rw [BitVec.toNat_add]
    have hone : (1 : StandardAssetId).toNat = 1 := rfl
    rw [hone, Nat.mod_eq_of_lt (by omega)]
    omega
  have heffect := m.effect s
  generalize m.next s = s' at heffect
  cases heffect with
  | kept hsame _ => exact Nat.le_of_eq (congrArg BitVec.toNat hsame.nextAssetId.symm)
  | registered hok hne hw hkey => exact hroom hne
  | forceRegistered hok hfree hne hw => exact hroom hne
  | relocated hok hold hfree => exact Nat.le_refl _
  | updated hok hne hkey hw => exact Nat.le_refl _

theorem onWorld_keeps (f : R.World → Except R.DispatchError R.World) :
    (onWorld f).Keeps fun s => (s.nextAssetId, s.registeredAssetId) :=
  .bind (.read _) fun _ => .modify fun _ => rfl

/-- No call of a batch takes an id back. -/
theorem batch_preserves {calls : List (Update R)} {k : ℕ}
    (h : ∀ call ∈ calls, call.Preserves fun s => k ≤ s.nextAssetId.toNat) :
    (batch calls).Preserves fun s => k ≤ s.nextAssetId.toNat := by
  induction calls with
  | nil => exact .pure _
  | cons call calls ih =>
    have ⟨hcall, hcalls⟩ := List.forall_mem_cons.mp h
    exact .bind hcall fun _ => ih hcalls

theorem onWorld_preserves (f : R.World → Except R.DispatchError R.World) (k : ℕ) :
    (onWorld f).Preserves fun s => k ≤ s.nextAssetId.toNat := by
  intro s hs
  have hkept := congrArg Prod.fst (onWorld_keeps f s)
  simp only at hkept
  rw [hkept]
  exact hs

theorem registerAsset_preserves (origin : Origin R) (admin : R.Account) (metadata : R.Metadata)
    (k : ℕ) : (registerAsset origin admin metadata).Preserves
      fun s => k ≤ s.nextAssetId.toNat := by
  intro s hs
  exact Nat.le_trans hs (move_le s (.call origin (.registerAsset admin metadata)))

theorem batchTx_le (order : Order R) (s : State R) :
    s.nextAssetId.toNat ≤ (order.batchTx U s).2.nextAssetId.toNat := by
  have hpres : (order.batchTx U).Preserves
      fun s' => s.nextAssetId.toNat ≤ s'.nextAssetId.toNat := by
    unfold Order.batchTx
    cases order.metadata with
    | none =>
      apply batch_preserves
      simp only [List.forall_mem_cons]
      exact ⟨onWorld_preserves _ _, registerAsset_preserves _ _ _ _, by simp⟩
    | some metadata =>
      apply batch_preserves
      simp only [List.forall_mem_cons]
      exact ⟨onWorld_preserves _ _, registerAsset_preserves _ _ _ _, onWorld_preserves _ _,
        by simp⟩
  exact hpres s (Nat.le_refl _)

theorem execute_of_get {i : ℕ} {q : Submission R} (h : n.submitted[i]? = some q) :
    (Step.execute i).next U n =
      { chain := (q.toOrder.batchTx U n.chain).2, submitted := n.submitted.eraseIdx i } := by
  simp only [Step.next, h]

theorem execute_of_none {i : ℕ} (h : n.submitted[i]? = none) : (Step.execute i).next U n = n := by
  simp only [Step.next, h]

theorem next_le (m : Step R) (n : Net R) :
    n.chain.nextAssetId.toNat ≤ (m.next U n).chain.nextAssetId.toNat := by
  cases m with
  | createNFT order => exact Nat.le_refl _
  | execute i =>
    cases h : n.submitted[i]? with
    | none => exact Nat.le_of_eq (by rw [execute_of_none U h])
    | some q =>
      rw [execute_of_get U h]
      exact batchTx_le U q.toOrder n.chain
  | chain m => exact move_le n.chain m

/-- The id at the end of a run is that of its start if and only if no step allocates. -/
theorem run_same_iff {tr : List (Net R × Step R)}
    (h : Run (Step.next U) (fun _ _ => True) n tr n') :
    n.chain.nextAssetId.toNat ≤ n'.chain.nextAssetId.toNat ∧
      (n'.chain.nextAssetId = n.chain.nextAssetId ↔ ∀ x ∈ tr, ¬ x.2.Allocates U x.1) := by
  induction h with
  | nil => exact ⟨Nat.le_refl _, by simp⟩
  | @snoc tr n₁ m hrun _ ih =>
    obtain ⟨hle, hiff⟩ := ih
    have hstep := next_le U m n₁
    refine ⟨Nat.le_trans hle hstep, ?_⟩
    constructor
    · intro heq x hx
      have hval := congrArg BitVec.toNat heq
      have hsame : n₁.chain.nextAssetId = n.chain.nextAssetId := by
        apply BitVec.eq_of_toNat_eq
        omega
      rcases List.mem_append.mp hx with hx | hx
      · exact hiff.mp hsame x hx
      · rw [List.mem_singleton.mp hx]
        intro halloc
        exact halloc (heq.trans hsame.symm)
    · intro hquiet
      have hsame := hiff.mpr fun x hx => hquiet x (List.mem_append_left _ hx)
      have hlast := hquiet (n₁, m) (List.mem_append_right _ (List.mem_singleton_self _))
      exact (not_ne_iff.mp hlast).trans hsame

theorem batch_keeps {τ : Type} {f : State R → τ} {calls : List (Update R)}
    (h : ∀ call ∈ calls, call.Keeps f) : (batch calls).Keeps f := by
  induction calls with
  | nil => exact .pure _
  | cons call calls ih =>
    have ⟨hcall, hcalls⟩ := List.forall_mem_cons.mp h
    exact .bind hcall fun _ => ih hcalls

/-- The registration in a batch that executes completely. -/
theorem batch_registered {f : R.World → Except R.DispatchError R.World} {who admin : R.Account}
    {metadata : R.Metadata} {rest : List (Update R)}
    (hrest : ∀ call ∈ rest, call.Keeps State.registeredAssetId)
    (h : batch (onWorld f :: registerAsset (.signed who) admin metadata :: rest) s =
      (.ok ⟨⟩, s')) :
    s'.registeredAssetId.get (.ofMetadata metadata) = some s.nextAssetId := by
  obtain ⟨_, s₁, hmint, h⟩ := Tx.bind_run_ok.mp h
  obtain ⟨_, s₂, hreg, h⟩ := Tx.bind_run_ok.mp h
  have hkept := (onWorld_keeps f).run hmint
  have hid : s₁.nextAssetId = s.nextAssetId := congrArg Prod.fst hkept
  obtain ⟨_, w, _, _, _, _, hs₂⟩ := registerAsset_ok.mp hreg
  rw [(batch_keeps hrest).run h, hs₂, ← hid]
  exact get_insert_self _ _ _

/-- A batch that executes completely registers its NFT under the next id of the state it starts
from. -/
theorem batchTx_ok {order : Order R} (h : order.batchTx U s = (.ok ⟨⟩, s')) :
    s'.registeredAssetId.get (.nonFungible order.collectionId order.itemId) =
      some s.nextAssetId := by
  unfold Order.batchTx at h
  cases hmeta : order.metadata with
  | none =>
    rw [hmeta] at h
    have hnone : ∀ call ∈ ([] : List (Update R)), call.Keeps State.registeredAssetId := by simp
    exact batch_registered hnone h
  | some metadata =>
    rw [hmeta] at h
    apply batch_registered _ h
    intro call hcall
    rw [List.mem_singleton.mp hcall]
    intro s
    exact congrArg Prod.snd (onWorld_keeps _ s)

end Ids

/-- A client whose batch executes completely has returned the id of its NFT if and only if no step
since it read the id has allocated one. -/
theorem createNFT_iff {n₀ n₁ n : Net R} {tr₁ tr₂ : List (Net R × Step R)} {order : Order R} {i : ℕ}
    (h : Run (Step.next U) (fun _ _ => True) n₀ (tr₁ ++ (n₁, .createNFT order) :: tr₂) n)
    (hi : n.submitted[i]? = some { order with assetId := n₁.chain.nextAssetId })
    (hok : (order.batchTx U n.chain).1 = .ok ⟨⟩) :
    ((Step.execute i).next U n).chain.registeredAssetId.get
        (.nonFungible order.collectionId order.itemId) = some n₁.chain.nextAssetId ↔
      ∀ x ∈ tr₂, ¬ x.2.Allocates U x.1 := by
  have hsince := (run_same_iff U (Run.split h).2.2).2
  have hread : ((Step.createNFT order).next U n₁).chain = n₁.chain := rfl
  have hid := batchTx_ok U (Tx.run_of_fst hok)
  rw [execute_of_get U hi, hid, Option.some.injEq, ← hsince, hread]

namespace Sample
open AssetManager.Sample

/-- Items are minted once, and only what is minted has metadata. -/
def uniques : Uniques runtime :=
  { mint := fun (w : World) _ collectionId itemId owner =>
      if w.holdings.owner collectionId itemId = none then
        .ok { w with holdings := { w.holdings with owner := fun c i =>
          if c = collectionId ∧ i = itemId then some owner else w.holdings.owner c i } }
      else .error .inUse
    setMetadata := fun (w : World) _ collectionId itemId _ _ =>
      if w.holdings.owner collectionId itemId = none then .error .unknown else .ok w }

/-- An item of collection 1, with metadata. -/
def order (itemId : StandardAssetId) : Order runtime :=
  { collectionId := 1
    itemId
    address := (1 : ℕ)
    signer := (1 : ℕ)
    paddressSha256 := Bytes.zero 32
    metadata := some [1] }

def opening : Net runtime := ⟨start, []⟩

/-- One client, while other calls are made. -/
def alone : List (Step runtime) :=
  [.createNFT (order 1), .chain (root (.setMinXcmFee (AssetManager.Sample.chain 2000) 1))]

/-- Two clients read the same id, and one batch is executed. -/
def raced : List (Step runtime) := [.createNFT (order 1), .createNFT (order 2), .execute 0]

theorem plays (ms : List (Step runtime)) : Run (Step.next uniques) (fun _ _ => True) opening
    (trace (Step.next uniques) opening ms) (ms.foldl (Step.next uniques) opening) :=
  Run.play fun _ _ => trivial

end Sample

open CreateNft.Sample in
theorem createNFT_alone :
    let n := (Step.execute 0).next uniques (alone.foldl (Step.next uniques) opening)
    n.chain.registeredAssetId.get (.nonFungible 1 1) = some 8 := by
  intro n
  have hrun : Run (Step.next uniques) (fun _ _ => True) opening
      ([] ++ (opening, .createNFT (order 1)) :: (trace (Step.next uniques) opening alone).tail)
      (alone.foldl (Step.next uniques) opening) := plays alone
  apply (createNFT_iff uniques hrun rfl rfl).mpr
  simp only [alone, trace, List.tail_cons, List.forall_mem_cons]
  exact ⟨fun h => h rfl, by simp⟩

open CreateNft.Sample in
/-- Of two clients that read the same id, the second one returns the id of the first one's NFT. -/
theorem createNFT_raced : ∃ n tr,
    Run (Step.next uniques) (fun _ _ => True) opening tr n ∧
    n.submitted[0]? = some { order 2 with assetId := 8 } ∧
    ((order 2).batchTx uniques n.chain).1 = .ok ⟨⟩ ∧
    ((Step.execute 0).next uniques n).chain.registeredAssetId.get (.nonFungible 1 2) = some 9 ∧
    ((Step.execute 0).next uniques n).chain.registeredAssetId.get (.nonFungible 1 1) = some 8 :=
  ⟨_, _, plays raced, rfl, rfl, rfl, rfl⟩

end CreateNft
end AssetManager
end ZkNft
