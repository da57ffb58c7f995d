import ZkNft.MantaPay.Dispatch

/-! The move of public values that ends a post. -/

namespace ZkNft

variable {R : Runtime} {s s' : State R}

section Transfers
variable {id : StandardAssetId} {a b : R.Account} {v : AssetValue} {u : PUnit}

theorem transferFungible_run_ok :
    transferFungible R id a b v s = (.ok u, s') ↔ ∃ w, R.ValidId id ∧
      (R.token id).transfer s.world a b v true = .ok w ∧ s' = { s with world := w } := by
  simp only [transferFungible, Tx.read_bind_ok, Exec.expectOk_eq_ok, Frame.transfer_eq_ok,
    Tx.modify_ok, and_assoc]

theorem transferNonFungible_run_ok {c i : StandardAssetId} :
    transferNonFungible R c i b s = (.ok u, s') ↔ ∃ w,
      R.uniquesTransfer s.world c i b = .ok w ∧ s' = { s with world := w } := by
  simp only [transferNonFungible, Tx.read_bind_ok, Exec.expectOk_eq_ok,
    Frame.nonFungible_transfer_eq_ok, Tx.modify_ok]

end Transfers

section ForEach
variable {α : Type} {f : α → Tx (State R) (TransferLedgerError R) PUnit} {u : PUnit}

theorem forEach_nil : forEach R f [] s = (.ok u, s') ↔ s' = s := by
  rw [forEach, Tx.pure_ok]
  exact and_iff_right rfl

theorem forEach_singleton {x : α} : forEach R f [x] s = (.ok u, s') ↔ f x s = (.ok ⟨⟩, s') := by
  rw [forEach, Tx.bind_run_ok]
  constructor
  · intro ⟨_, s₁, h₁, h₂⟩
    have hs : s' = s₁ := forEach_nil.mp h₂
    rw [hs]
    exact h₁
  · intro h
    exact ⟨⟨⟩, s', h, rfl⟩

theorem forEach_infallible (hf : ∀ x, (f x).Infallible) (xs : List α) :
    (forEach R f xs).Infallible := by
  induction xs with
  | nil => exact .pure _
  | cons x xs ih => exact .bind (hf x) fun _ => ih

/-- The two states differ in the public assets only. -/
def SameButWorld (s s' : State R) : Prop := ∃ w, s' = { s with world := w }

theorem forEach_sameButWorld
    (hf : ∀ x s s' u, f x s = (.ok u, s') → SameButWorld s s') {xs : List α}
    (h : forEach R f xs s = (.ok u, s')) : SameButWorld s s' := by
  induction xs generalizing s with
  | nil =>
    have hs : s' = s := forEach_nil.mp h
    exact ⟨s.world, hs⟩
  | cons x xs ih =>
    obtain ⟨_, s₁, h₁, h₂⟩ := Tx.bind_run_ok.mp h
    obtain ⟨w, rfl⟩ := hf x s s₁ _ h₁
    obtain ⟨w', rfl⟩ := ih h₂
    exact ⟨w', rfl⟩

end ForEach

/-- The resolution of a private asset id to a token of the unified ledger. -/
def FungibleId (s : State R) (a : R.crypto.Fp) (id : StandardAssetId) : Prop :=
  ∃ metadata, getMetadata s a = .ok metadata ∧ metadata.getFungibleId = some id

/-- The resolution of a private asset id to an item of pallet-uniques. -/
def NonFungibleId (s : State R) (a : R.crypto.Fp) (c i : StandardAssetId) : Prop :=
  ∃ metadata, getMetadata s a = .ok metadata ∧ metadata.getNonFungibleId = some (c, i)

section Ids
variable {a : R.crypto.Fp} {id id' c i c' i' : StandardAssetId}

theorem FungibleId.unique (h : FungibleId s a id) (h' : FungibleId s a id') : id = id' := by
  obtain ⟨md, hmd, hid⟩ := h
  obtain ⟨md', hmd', hid'⟩ := h'
  obtain rfl := Except.ok.inj (hmd.symm.trans hmd')
  exact Option.some.inj (hid.symm.trans hid')

theorem NonFungibleId.unique (h : NonFungibleId s a c i) (h' : NonFungibleId s a c' i') :
    c = c' ∧ i = i' := by
  obtain ⟨md, hmd, hid⟩ := h
  obtain ⟨md', hmd', hid'⟩ := h'
  obtain rfl := Except.ok.inj (hmd.symm.trans hmd')
  exact Prod.mk.inj (Option.some.inj (hid.symm.trans hid'))

theorem FTTransferLedger.fungibleId_ok {ε : Type} :
    (FTTransferLedger.fungibleId R s a : Exec ε StandardAssetId) = .ok id ↔ FungibleId s a id :=
  FTTransferLedger.fungibleId_eq_ok

theorem FTTransferLedger.fungibleId_returns {ε : Type} :
    (FTTransferLedger.fungibleId R s a : Exec ε StandardAssetId).Returns ↔
      ∃ id, FungibleId s a id := by
  simp only [FTTransferLedger.fungibleId, Exec.bind_returns, Exec.expectOk_returns,
    Exec.expectOk_eq_ok, Exec.expect_returns, FungibleId]
  constructor
  · rintro ⟨⟨md, hmd⟩, h⟩
    obtain ⟨id, hid⟩ := h md hmd
    exact ⟨id, md, hmd, hid⟩
  · rintro ⟨id, md, hmd, hid⟩
    refine ⟨⟨md, hmd⟩, fun md' hmd' => ⟨id, ?_⟩⟩
    obtain rfl := Except.ok.inj (hmd.symm.trans hmd')
    exact hid

end Ids

section Updates
variable {a : R.crypto.Fp} {sources sinks : List (R.Account × AssetValue)} {u : PUnit}

theorem FTTransferLedger.updatePublicBalances_run_ok :
    FTTransferLedger.updatePublicBalances R a sources sinks s = (.ok u, s') ↔
      ∃ id s₁, FungibleId s a id ∧
        forEach R (fun x => transferFungible R id x.1 R.palletAccount x.2) sources s =
          (.ok ⟨⟩, s₁) ∧
        forEach R (fun x => transferFungible R id R.palletAccount x.1 x.2) sinks s₁ =
          (.ok ⟨⟩, s') := by
  simp only [FTTransferLedger.updatePublicBalances, Tx.read_bind_ok, Exec.expectOk_eq_ok,
    Exec.expect_eq_ok]
  constructor
  · rintro ⟨md, hmd, id, hid, h⟩
    obtain ⟨_, s₁, h₁, h₂⟩ := Tx.bind_run_ok.mp h
    exact ⟨id, s₁, ⟨md, hmd, hid⟩, h₁, h₂⟩
  · rintro ⟨id, s₁, ⟨md, hmd, hid⟩, h₁, h₂⟩
    exact ⟨md, hmd, id, hid, Tx.bind_run_ok.mpr ⟨⟨⟩, s₁, h₁, h₂⟩⟩

theorem NFTTransferLedger.updatePublicBalances_run_ok :
    NFTTransferLedger.updatePublicBalances R a sources sinks s = (.ok u, s') ↔
      ∃ c i s₁, NonFungibleId s a c i ∧
        forEach R (fun _ => transferNonFungible R c i R.palletAccount) sources s =
          (.ok ⟨⟩, s₁) ∧
        forEach R (fun x => transferNonFungible R c i x.1) sinks s₁ = (.ok ⟨⟩, s') := by
  simp only [NFTTransferLedger.updatePublicBalances, Tx.read_bind_ok, Exec.expectOk_eq_ok,
    Exec.expect_eq_ok]
  constructor
  · rintro ⟨md, hmd, ⟨c, i⟩, hid, h⟩
    obtain ⟨_, s₁, h₁, h₂⟩ := Tx.bind_run_ok.mp h
    exact ⟨c, i, s₁, ⟨md, hmd, hid⟩, h₁, h₂⟩
  · rintro ⟨c, i, s₁, ⟨md, hmd, hid⟩, h₁, h₂⟩
    exact ⟨md, hmd, (c, i), hid, Tx.bind_run_ok.mpr ⟨⟨⟩, s₁, h₁, h₂⟩⟩

/-- The move of public values changes the public assets only. -/
theorem Pallet.updatePublicBalances_sameButWorld {t : AssetType}
    (h : (ledgerOf R t).updatePublicBalances a sources sinks s = (.ok u, s')) :
    SameButWorld s s' := by
  have hfungible : FTTransferLedger.updatePublicBalances R a sources sinks s = (.ok u, s') →
      SameButWorld s s' := by
    intro h
    obtain ⟨id, s₁, -, h₁, h₂⟩ := FTTransferLedger.updatePublicBalances_run_ok.mp h
    obtain ⟨w, rfl⟩ := forEach_sameButWorld
      (fun x s s' _ hx => (transferFungible_run_ok.mp hx).imp fun _ h => h.2.2) h₁
    obtain ⟨w', rfl⟩ := forEach_sameButWorld
      (fun x s s' _ hx => (transferFungible_run_ok.mp hx).imp fun _ h => h.2.2) h₂
    exact ⟨w', rfl⟩
  have hnonFungible : NFTTransferLedger.updatePublicBalances R a sources sinks s = (.ok u, s') →
      SameButWorld s s' := by
    intro h
    obtain ⟨c, i, s₁, -, h₁, h₂⟩ := NFTTransferLedger.updatePublicBalances_run_ok.mp h
    obtain ⟨w, rfl⟩ := forEach_sameButWorld
      (fun x s s' _ hx => (transferNonFungible_run_ok.mp hx).imp fun _ h => h.2) h₁
    obtain ⟨w', rfl⟩ := forEach_sameButWorld
      (fun x s s' _ hx => (transferNonFungible_run_ok.mp hx).imp fun _ h => h.2) h₂
    exact ⟨w', rfl⟩
  cases t with
  | ft => exact hfungible h
  | pft => exact hfungible h
  | nft => exact hnonFungible h
  | sbt => exact hnonFungible h

/-- The move of public values fails by `expect` alone. -/
theorem Pallet.updatePublicBalances_infallible (t : AssetType) :
    ((ledgerOf R t).updatePublicBalances a sources sinks).Infallible := by
  have hexpect : ∀ {α : Type} (msg : String) (x : Option α),
      (Exec.expect msg x : Exec (TransferLedgerError R) α).Returns → ∃ b,
        (Exec.expect msg x : Exec (TransferLedgerError R) α) = .ok b := by
    intro α msg x h
    simpa using h
  have hexpectOk : ∀ {ε α : Type} (msg : String) (x : Except ε α),
      (Exec.expectOk msg x : Exec (TransferLedgerError R) α).Returns → ∃ b,
        (Exec.expectOk msg x : Exec (TransferLedgerError R) α) = .ok b := by
    intro ε α msg x h
    simpa using h
  have hft : ∀ id src dst v, (transferFungible R id src dst v).Infallible := fun id src dst v =>
    .bind (.read fun _ => hexpectOk _ _) fun _ => .modify _
  have hnft : ∀ c i dst, (transferNonFungible R c i dst).Infallible := fun c i dst =>
    .bind (.read fun _ => hexpectOk _ _) fun _ => .modify _
  have hfungible : (FTTransferLedger.updatePublicBalances R a sources sinks).Infallible :=
    .bind (.read fun _ => hexpectOk _ _) fun _ => .bind (.read fun _ => hexpect _ _) fun _ =>
      .bind (forEach_infallible (fun _ => hft _ _ _ _) _) fun _ =>
        forEach_infallible (fun _ => hft _ _ _ _) _
  have hnonFungible : (NFTTransferLedger.updatePublicBalances R a sources sinks).Infallible :=
    .bind (.read fun _ => hexpectOk _ _) fun _ => .bind (.read fun _ => hexpect _ _) fun _ =>
      .bind (forEach_infallible (fun _ => hnft _ _ _) _) fun _ =>
        forEach_infallible (fun _ => hnft _ _ _) _
  cases t with
  | ft => exact hfungible
  | pft => exact hfungible
  | nft => exact hnonFungible
  | sbt => exact hnonFungible

/-- A post with one public value moves it once, into the pool or out of it. -/
theorem FTTransferLedger.updatePublicBalances_one {x : R.Account × AssetValue}
    (h : sources = [x] ∧ sinks = [] ∨ sources = [] ∧ sinks = [x]) :
    FTTransferLedger.updatePublicBalances R a sources sinks s = (.ok u, s') ↔
      ∃ id w, FungibleId s a id ∧ R.ValidId id ∧
        (if sources = [] then (R.token id).transfer s.world R.palletAccount x.1 x.2 true
          else (R.token id).transfer s.world x.1 R.palletAccount x.2 true) = .ok w ∧
        s' = { s with world := w } := by
  rw [FTTransferLedger.updatePublicBalances_run_ok]
  rcases h with ⟨rfl, rfl⟩ | ⟨rfl, rfl⟩
  · simp only [forEach_singleton, forEach_nil, transferFungible_run_ok, List.cons_ne_nil, if_false]
    constructor
    · rintro ⟨id, s₁, hid, ⟨w, hv, hw, rfl⟩, rfl⟩
      exact ⟨id, w, hid, hv, hw, rfl⟩
    · rintro ⟨id, w, hid, hv, hw, rfl⟩
      exact ⟨id, _, hid, ⟨w, hv, hw, rfl⟩, rfl⟩
  · simp only [forEach_singleton, forEach_nil, transferFungible_run_ok, if_true]
    constructor
    · rintro ⟨id, s₁, hid, rfl, w, hv, hw, rfl⟩
      exact ⟨id, w, hid, hv, hw, rfl⟩
    · rintro ⟨id, w, hid, hv, hw, rfl⟩
      exact ⟨id, s, hid, rfl, w, hv, hw, rfl⟩

/-- A post with one public value moves the item once, to the pallet or to the sink. -/
theorem NFTTransferLedger.updatePublicBalances_one {x : R.Account × AssetValue}
    (h : sources = [x] ∧ sinks = [] ∨ sources = [] ∧ sinks = [x]) :
    NFTTransferLedger.updatePublicBalances R a sources sinks s = (.ok u, s') ↔
      ∃ c i w, NonFungibleId s a c i ∧
        R.uniquesTransfer s.world c i (if sources = [] then x.1 else R.palletAccount) = .ok w ∧
        s' = { s with world := w } := by
  rw [NFTTransferLedger.updatePublicBalances_run_ok]
  rcases h with ⟨rfl, rfl⟩ | ⟨rfl, rfl⟩
  · simp only [forEach_singleton, forEach_nil, transferNonFungible_run_ok, List.cons_ne_nil,
      if_false]
    constructor
    · rintro ⟨c, i, s₁, hid, ⟨w, hw, rfl⟩, rfl⟩
      exact ⟨c, i, w, hid, hw, rfl⟩
    · rintro ⟨c, i, w, hid, hw, rfl⟩
      exact ⟨c, i, _, hid, ⟨w, hw, rfl⟩, rfl⟩
  · simp only [forEach_singleton, forEach_nil, transferNonFungible_run_ok, if_true]
    constructor
    · rintro ⟨c, i, s₁, hid, rfl, w, hw, rfl⟩
      exact ⟨c, i, w, hid, hw, rfl⟩
    · rintro ⟨c, i, w, hid, hw, rfl⟩
      exact ⟨c, i, s, hid, rfl, w, hw, rfl⟩

end Updates

end ZkNft
