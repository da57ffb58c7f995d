import ZkNft.Primitives.Assets

/-! Public assets held in memory: a frame in which the ledgers' assumptions on the FRAME pallets
are theorems. -/

namespace ZkNft

/-- Why a public asset does not move. -/
inductive TransferError where
  | noFunds
  | cannotDeposit
  | noItem
  deriving DecidableEq

structure Holdings (A : Type) where
  balance : StandardAssetId → A → Balance
  owner : StandardAssetId → StandardAssetId → Option A
  frozen : StandardAssetId → StandardAssetId → Bool

namespace Holdings
variable {A : Type} [DecidableEq A] (minBalance : Balance) (w : Holdings A)
  (id c i : StandardAssetId) (src dst : A) (amount : Balance)

/-- What an account can spend; a kept account keeps the existential deposit. -/
def reducibleBalance (keepAlive : Bool) : Balance :=
  if keepAlive then
    if minBalance ≤ w.balance id src then w.balance id src - minBalance else 0
  else w.balance id src

def canDeposit : DepositConsequence :=
  if amount = 0 then .success
  else if 2 ^ 128 ≤ (w.balance id dst).toNat + amount.toNat then .overflow
  else if w.balance id dst + amount < minBalance then .belowMinimum
  else .success

/-- `w` with `amount` moved. -/
def move : Holdings A :=
  { w with
    balance := fun j a =>
      if j = id ∧ a = src then w.balance id src - amount
      else if j = id ∧ a = dst then w.balance id dst + amount
      else w.balance j a }

def transfer (keepAlive : Bool) : Except TransferError (Holdings A) :=
  if src = dst ∨ amount = 0 then .ok w
  else if w.reducibleBalance minBalance id src keepAlive < amount then .error .noFunds
  else if w.canDeposit minBalance id dst amount ≠ .success then .error .cannotDeposit
  else .ok (w.move id src dst amount)

def canTransfer : Bool := (w.owner c i).isSome && !w.frozen c i

def transferItem : Except TransferError (Holdings A) :=
  if w.canTransfer c i then
    .ok { w with owner := fun c' i' => if c' = c ∧ i' = i then some dst else w.owner c' i' }
  else .error .noItem

def fungible : Fungible (Holdings A) A TransferError Bool :=
  { balance := fun w a => w.balance id a
    reducibleBalance := fun w a keepAlive => w.reducibleBalance minBalance id a keepAlive
    canDeposit := fun w a amount _ => w.canDeposit minBalance id a amount
    transfer := fun w a b amount keepAlive => w.transfer minBalance id a b amount keepAlive }

/-- A frame over holdings in memory. -/
def frame (A : Type) [DecidableEq A] (minBalance : Balance)
    (nativeAssetId startNonNativeAssetId : StandardAssetId) : Frame :=
  { Account := A
    World := Holdings A
    DispatchError := TransferError
    native :=
      { balance := fun w a => w.balance nativeAssetId a
        reducibleBalance := fun w a keepAlive =>
          w.reducibleBalance minBalance nativeAssetId a keepAlive
        canDeposit := fun w a amount _ => w.canDeposit minBalance nativeAssetId a amount
        transfer := fun w a b amount existenceRequirement =>
          w.transfer minBalance nativeAssetId a b amount (existenceRequirement = .keepAlive) }
    nonNative := fungible minBalance
    uniquesOwner := Holdings.owner
    uniquesCanTransfer := canTransfer
    uniquesTransfer := transferItem
    nativeAssetId
    startNonNativeAssetId }

variable {minBalance w id c i src dst amount} {w' : Holdings A}

theorem frame_token (nativeAssetId startNonNativeAssetId : StandardAssetId) :
    (frame A minBalance nativeAssetId startNonNativeAssetId).token id = fungible minBalance id := by
  unfold Frame.token
  split_ifs with h
  · have hid : id = nativeAssetId := h
    subst hid
    unfold frame fungible
    simp only [Fungible.mk.injEq, true_and]
    funext w a b amount alive
    cases alive <;> rfl
  · rfl

omit [DecidableEq A] in
theorem reducibleBalance_le (keepAlive : Bool) :
    w.reducibleBalance minBalance id src keepAlive ≤ w.balance id src := by
  unfold reducibleBalance
  rw [BitVec.le_def]
  split_ifs with _ hmin
  · rw [BitVec.toNat_sub_of_le hmin]
    omega
  · exact Nat.zero_le _
  · exact Nat.le_refl _

omit [DecidableEq A] in
theorem canDeposit_fits (h : w.canDeposit minBalance id dst amount = .success) :
    (w.balance id dst).toNat + amount.toNat < 2 ^ 128 := by
  unfold canDeposit at h
  split_ifs at h with h0 hover
  · rw [h0]
    have hlt := (w.balance id dst).isLt
    simpa using hlt
  · omega

theorem transfer_cases {keepAlive : Bool}
    (h : w.transfer minBalance id src dst amount keepAlive = .ok w') :
    ((src = dst ∨ amount = 0) ∧ w' = w) ∨ src ≠ dst ∧
      amount ≤ w.reducibleBalance minBalance id src keepAlive ∧
      w.canDeposit minBalance id dst amount = .success ∧ w' = w.move id src dst amount := by
  unfold transfer at h
  split_ifs at h with hself hfunds hdep
  · exact .inl ⟨hself, (Except.ok.inj h).symm⟩
  · refine .inr ⟨fun he => hself (.inl he), ?_, not_not.mp hdep, (Except.ok.inj h).symm⟩
    exact BitVec.not_lt.mp hfunds

omit [DecidableEq A] in
theorem transferItem_eq_ok : w.transferItem c i dst = .ok w' ↔ w.canTransfer c i = true ∧
    w' = { w with owner := fun c' i' => if c' = c ∧ i' = i then some dst else w.owner c' i' } := by
  unfold transferItem
  split_ifs with h <;> simp [h, eq_comm]

theorem move_moved (hne : src ≠ dst) (hle : amount ≤ w.balance id src)
    (hfits : (w.balance id dst).toNat + amount.toNat < 2 ^ 128) :
    ((w.move id src dst amount).balance id src).toNat + amount.toNat = (w.balance id src).toNat ∧
      ((w.move id src dst amount).balance id dst).toNat =
        (w.balance id dst).toNat + amount.toNat := by
  have hle' : amount.toNat ≤ (w.balance id src).toNat := BitVec.le_def.mp hle
  constructor
  · simp only [move, true_and, if_true, BitVec.toNat_sub_of_le hle]
    omega
  · simp only [move, true_and, Ne.symm hne, if_false, if_true, BitVec.toNat_add]
    exact Nat.mod_eq_of_lt hfits

theorem transfer_balance {keepAlive : Bool}
    (h : w.transfer minBalance id src dst amount keepAlive = .ok w') (hne : src ≠ dst) :
    (w'.balance id src).toNat + amount.toNat = (w.balance id src).toNat ∧
      (w'.balance id dst).toNat = (w.balance id dst).toNat + amount.toNat := by
  rcases transfer_cases h with ⟨hself, rfl⟩ | ⟨-, hred, hdep, rfl⟩
  · have h0 : amount = 0 := hself.resolve_left hne
    subst h0
    exact ⟨rfl, rfl⟩
  · have hfree : w.reducibleBalance minBalance id src keepAlive ≤ w.balance id src :=
      reducibleBalance_le keepAlive
    have hle := Nat.le_trans (BitVec.le_def.mp hred) (BitVec.le_def.mp hfree)
    exact move_moved hne (BitVec.le_def.mpr hle) (canDeposit_fits hdep)

theorem transfer_other {keepAlive : Bool}
    (h : w.transfer minBalance id src dst amount keepAlive = .ok w') (j : StandardAssetId) (a : A)
    (hother : j ≠ id ∨ a ≠ src ∧ a ≠ dst) : w'.balance j a = w.balance j a := by
  rcases transfer_cases h with ⟨-, rfl⟩ | ⟨-, -, -, rfl⟩
  · rfl
  · have h₁ : ¬ (j = id ∧ a = src) := by tauto
    have h₂ : ¬ (j = id ∧ a = dst) := by tauto
    simp only [move, h₁, h₂, if_false]

theorem transfer_self {keepAlive : Bool}
    (h : w.transfer minBalance id src src amount keepAlive = .ok w') : w' = w := by
  rcases transfer_cases h with ⟨-, rfl⟩ | ⟨hne, -⟩
  · rfl
  · exact absurd rfl hne

theorem transfer_owner {keepAlive : Bool}
    (h : w.transfer minBalance id src dst amount keepAlive = .ok w') : w'.owner = w.owner := by
  rcases transfer_cases h with ⟨-, rfl⟩ | ⟨-, -, -, rfl⟩ <;> rfl

theorem transfer_total (hred : amount ≤ w.reducibleBalance minBalance id src true)
    (hdep : w.canDeposit minBalance id dst amount = .success) :
    ∃ w', w.transfer minBalance id src dst amount true = .ok w' := by
  have hred' : ¬ w.reducibleBalance minBalance id src true < amount := BitVec.not_lt.mpr hred
  unfold transfer
  rw [if_neg hred', if_neg (not_not.mpr hdep)]
  split_ifs
  · exact ⟨w, rfl⟩
  · exact ⟨_, rfl⟩

theorem transfer_checks {keepAlive : Bool}
    (h : w.transfer minBalance id src dst amount keepAlive = .ok w') (hne : src ≠ dst)
    (h0 : amount ≠ 0) : amount ≤ w.reducibleBalance minBalance id src keepAlive ∧
      w.canDeposit minBalance id dst amount = .success := by
  rcases transfer_cases h with ⟨hself, -⟩ | ⟨-, hred, hdep, -⟩
  · rcases hself with he | he
    · exact absurd he hne
    · exact absurd he h0
  · exact ⟨hred, hdep⟩

/-- The holdings in memory meet the assumptions of the ledgers. -/
theorem frame_lawful (nativeAssetId startNonNativeAssetId : StandardAssetId) (palletAccount : A) :
    (frame A minBalance nativeAssetId startNonNativeAssetId).Lawful palletAccount where
  transfer_moved w w' id src dst amount h := by
    rw [frame_token] at h
    constructor
    · intro he
      subst he
      rw [transfer_self h]
    · intro hne
      rw [frame_token]
      exact (transfer_balance h hne).1
    · intro hne
      rw [frame_token]
      exact (transfer_balance h hne).2
    · intro j a hother
      rw [frame_token]
      exact transfer_other h j a hother
    · intro c i
      exact congrFun (congrFun (transfer_owner h) c) i
  transfer_total w id src dst amount hred hdep := by
    rw [frame_token] at *
    exact transfer_total hred hdep
  transfer_canDeposit w w' id src dst amount h hne h0 := by
    rw [frame_token] at *
    exact (transfer_checks h hne h0).2
  transfer_reducible w w' id dst amount h hne h0 := by
    rw [frame_token] at *
    exact (transfer_checks h hne h0).1
  uniquesTransfer_total w c i dst := by
    constructor
    · intro ⟨w', h⟩
      exact (transferItem_eq_ok.mp h).1
    · intro h
      exact ⟨_, transferItem_eq_ok.mpr ⟨h, rfl⟩⟩
  uniquesTransfer_owner w w' c i dst h := by
    obtain ⟨-, rfl⟩ := transferItem_eq_ok.mp h
    constructor
    · exact if_pos ⟨rfl, rfl⟩
    · intro c' i' hne
      exact if_neg fun he => hne (Prod.ext he.1 he.2)
  uniquesTransfer_balance w w' c i dst h id a := by
    obtain ⟨-, rfl⟩ := transferItem_eq_ok.mp h
    rw [frame_token]
    rfl
  uniquesCanTransfer_owner w c i h := (Bool.and_eq_true_iff.mp h).1

end Holdings

end ZkNft
