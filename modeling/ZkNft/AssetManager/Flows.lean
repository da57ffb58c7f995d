import ZkNft.AssetManager.Adapter

/-! The balances of a token follow the messages that name one of its locations. -/

namespace ZkNft
namespace AssetManager
open StorageMap

namespace Adapter
variable {R : Runtime} (X : Adapter R)

/-- What an asset of a message is of token `id`. -/
def worth (s₀ : State R) (id : StandardAssetId) : MultiAsset → ℕ
  | ⟨.concrete l, .fungible amount⟩ => if s₀.assetAt l = some id then amount.toNat else 0
  | _ => 0

/-- What a withdrawal costs an account. -/
def cost (w : R.World) (id : StandardAssetId) (who : R.Account) (amount : ℕ) : ℕ :=
  R.holding w id who - remainder (X.minimumBalance w id) (R.holding w id who) amount

/-- What a move brings to the balance of an account in token `id`, by the locations that it had
in `s₀`. -/
def flow (s₀ : State R) (id : StandardAssetId) (x : R.Account) (s : State R) : Move R → ℤ
  | .registry (.call origin (.forceMintAsset assetId beneficiary amount)) =>
    match ((Call.forceMintAsset assetId beneficiary amount).dispatch origin s).1 with
    | .ok _ => if assetId = id ∧ beneficiary = x then (amount.toNat : ℤ) else 0
    | _ => 0
  | .registry (.call _ _) => 0
  | .registry (.other w) =>
    R.holding w id x - R.holding s.world id x
  | .depositAsset asset location =>
    match X.convertLocation location, X.depositAsset s asset location with
    | some who, .ok _ => if who = x then (worth s₀ id asset : ℤ) else 0
    | _, _ => 0
  | .withdrawAsset asset location =>
    match X.convertLocation location, X.withdrawAsset s asset location with
    | some who, .ok _ =>
      if who = x then -(X.cost s.world id x (worth s₀ id asset) : ℤ) else 0
    | _, _ => 0
  | .takeRevenue ⟨.concrete l, .fungible amount⟩ =>
    -- the native asset is not one of pallet-assets
    if X.xcmFeesAccount = x ∧ id ≠ R.nativeAssetId ∧ s₀.locationAssetId.get (.v1 l) = some id then
      match R.assetsMintInto s.world id x amount with
      | .ok _ => amount.toNat
      | .error _ => 0
    else 0
  | .takeRevenue _ => 0

/-- The move takes a location from token `id`, or gives it one. -/
def Move.Relocates (id : StandardAssetId) (s : State R) : Move R → Prop
  | .registry (.call origin (.updateAssetLocation assetId location)) =>
    (Call.updateAssetLocation assetId location).Accepted s origin ∧ (assetId = id ∨
      ∃ old, s.assetIdLocation.get assetId = some old ∧ s.locationAssetId.get old = some id)
  | _ => False

section Locations
variable {X} {s s' s₀ : State R} {m : Move R} {startId id : StandardAssetId}

/-- The token is registered, and the locations that lead to it are those of `s₀`. -/
structure Located (startId : StandardAssetId) (s₀ : State R) (id : StandardAssetId)
    (s : State R) : Prop where
  coherent : Coherent startId s
  registered : s.assetIdLocation.containsKey id = true
  same : ∀ l, s.locationAssetId.get l = some id ↔ s₀.locationAssetId.get l = some id

/-- For the asset manager a message is a change of balances like any other. -/
theorem next_other (s : State R) (hm : ∀ m', m ≠ .registry m') :
    ∃ w, X.next s m = AssetManager.Move.next s (.other w) := by
  cases m with
  | registry m' => exact absurd rfl (hm m')
  | depositAsset asset location =>
    show ∃ w, (X.depositAsset s asset location).toOption.getD s = _
    cases h : X.depositAsset s asset location with
    | error e => exact ⟨s.world, rfl⟩
    | ok s' =>
      obtain ⟨_, -, hrun⟩ := Exec.except_bind_eq_ok.mp h
      obtain ⟨w, -, hs'⟩ := Exec.except_bind_eq_ok.mp hrun
      exact ⟨w, (Except.ok.inj hs').symm⟩
  | withdrawAsset asset location =>
    show ∃ w, (X.withdrawAsset s asset location).toOption.elim s Prod.snd = _
    cases h : X.withdrawAsset s asset location with
    | error e => exact ⟨s.world, rfl⟩
    | ok out =>
      obtain ⟨_, -, hrun⟩ := Exec.except_bind_eq_ok.mp h
      obtain ⟨w, -, hs'⟩ := Exec.except_bind_eq_ok.mp hrun
      exact ⟨w, congrArg Prod.snd (Except.ok.inj hs').symm⟩
  | takeRevenue revenue =>
    show ∃ w, X.takeRevenue s revenue = _
    unfold takeRevenue
    split
    · split_ifs
      · exact ⟨s.world, rfl⟩
      · split
        next w _ => exact ⟨w, rfl⟩
        next => exact ⟨s.world, rfl⟩
    · exact ⟨s.world, rfl⟩

theorem Located.effect {m : AssetManager.Move R} (h : Located startId s₀ id s)
    (he : Effect s m s') (hkeep : ¬ Move.Relocates id s (.registry m)) :
    Located startId s₀ id s' := by
  have hcoherent := h.coherent.step he
  obtain ⟨l₀, hl₀⟩ := containsKey_iff.mp h.registered
  have hnext := h.coherent.ne_next hl₀
  have hinsert : ∀ a l, (s.assetIdLocation.insert a l).containsKey id = true :=
    fun a l => (containsKey_insert _ _ _ _).mpr (.inr h.registered)
  cases he with
  | kept hsame _ =>
    refine ⟨hcoherent, ?_, ?_⟩
    · rw [hsame.assetIdLocation]
      exact h.registered
    · rw [hsame.locationAssetId]
      exact h.same
  | registered => exact ⟨hcoherent, hinsert _ _, h.same⟩
  | @forceRegistered location _ _ _ hfree _ _ =>
    refine ⟨hcoherent, hinsert _ _, ?_⟩
    intro l
    show (s.locationAssetId.insert location s.nextAssetId).get l = some id ↔ _
    rw [← h.same l, get_insert]
    split_ifs with hl
    · rw [hl, containsKey_eq_false.mp hfree, Option.some.injEq]
      exact iff_of_false hnext.symm (fun hnone => by cases hnone)
    · exact Iff.rfl
  | @relocated a old location hok hold hfree =>
    refine ⟨hcoherent, hinsert _ _, ?_⟩
    have ha : a ≠ id := fun ha => hkeep ⟨hok, .inl ha⟩
    intro l
    show ((s.locationAssetId.remove old).insert location a).get l = some id ↔ _
    rw [← h.same l, get_insert, get_remove]
    split_ifs with hl hl'
    · rw [hl, containsKey_eq_false.mp hfree, Option.some.injEq]
      exact iff_of_false ha (fun hnone => by cases hnone)
    · refine iff_of_false (fun hnone => by cases hnone) ?_
      rw [hl']
      exact fun hid => hkeep ⟨hok, .inr ⟨old, hold, hid⟩⟩
    · exact Iff.rfl
  | updated => exact ⟨hcoherent, h.registered, h.same⟩

theorem next_coherent (h : Coherent startId s) (m : Move R) : Coherent startId (X.next s m) := by
  by_cases hm : ∃ m', m = .registry m'
  · obtain ⟨m', rfl⟩ := hm
    exact h.step (m'.effect s)
  · obtain ⟨w, hw⟩ := next_other (X := X) s fun m' hm' => hm ⟨m', hm'⟩
    rw [hw]
    exact h.step (AssetManager.Move.effect s (.other w))

theorem Located.next (h : Located startId s₀ id s) (hkeep : ¬ m.Relocates id s) :
    Located startId s₀ id (X.next s m) := by
  by_cases hm : ∃ m', m = .registry m'
  · obtain ⟨m', rfl⟩ := hm
    exact h.effect (m'.effect s) hkeep
  · obtain ⟨w, hw⟩ := next_other (X := X) s fun m' hm' => hm ⟨m', hm'⟩
    rw [hw]
    exact h.effect (AssetManager.Move.effect s (.other w)) (fun hfalse => hfalse)

/-- The locations of messages that lead to the token stay too. -/
theorem Located.assetAt_iff (h : Located startId s₀ id s) (l : MultiLocation) :
    s.assetAt l = some id ↔ s₀.assetAt l = some id := by
  unfold State.assetAt
  split_ifs
  · exact Iff.rfl
  · exact h.same (.v1 l)

end Locations

section Flows
variable {X} {s s₀ : State R} {m : Move R} {startId id a : StandardAssetId} {who x : R.Account}
  {w w' : R.World} {n : ℕ} {l : MultiLocation} {amount : Balance}

theorem Located.worth_eq (h : Located startId s₀ id s) (hl : s.assetAt l = some a) :
    worth s₀ id ⟨.concrete l, .fungible amount⟩ = if a = id then amount.toNat else 0 := by
  rw [worth]
  simp only [← h.assetAt_iff, hl, Option.some.injEq]

theorem Takes.holding_eq (h : X.Takes w w' a who n) (id : StandardAssetId) (x : R.Account) :
    (R.holding w' id x : ℤ) = R.holding w id x -
      if who = x then (X.cost w id x (if a = id then n else 0) : ℤ) else 0 := by
  have hle : ∀ k, remainder (X.minimumBalance w id) (R.holding w id x) k ≤ R.holding w id x := by
    intro k
    unfold remainder
    split_ifs <;> omega
  have hrest := h id x
  by_cases hx : who = x
  · subst hx
    by_cases ha : a = id
    · subst ha
      have hle := hle n
      rw [if_pos ⟨rfl, rfl⟩] at hrest
      rw [hrest, if_pos rfl, if_pos rfl, cost]
      omega
    · rw [if_neg fun hsame => ha hsame.1] at hrest
      rw [hrest, if_pos rfl, if_neg ha, cost, remainder, if_neg fun hpos => by omega]
      omega
  · rw [if_neg fun hsame => hx hsame.2] at hrest
    rw [hrest, if_neg hx]
    omega

theorem flow_call (hX : X.Lawful) (origin : Origin R) (call : Call R) (x : R.Account) :
    (R.holding (call.dispatch origin s).2.world id x : ℤ) =
      R.holding s.world id x +
        X.flow s₀ id x s (.registry (.call origin call)) := by
  by_cases hok : call.Accepted s origin
  · have hrun : call.dispatch origin s = (.ok ⟨⟩, (call.dispatch origin s).2) := Prod.ext hok rfl
    by_cases hmint : ∃ a who amount, call = .forceMintAsset a who amount
    · obtain ⟨a, who, amount, rfl⟩ := hmint
      have hadds := forceMintAsset_adds hX hrun
      rw [flow, hadds id x]
      unfold Call.Accepted at hok
      rw [hok]
      push_cast
      rfl
    · have hsame := dispatch_same hX (fun a who amount hcall => hmint ⟨a, who, amount, hcall⟩) hrun
      rw [hsame]
      cases call with
      | forceMintAsset a who amount => exact absurd ⟨a, who, amount, rfl⟩ hmint
      | _ => exact (add_zero _).symm
  · rw [Call.dispatch_rollback hok]
    cases call with
    | forceMintAsset a who amount =>
      rw [flow]
      split
      next u hu => exact absurd hu hok
      next => exact (add_zero _).symm
    | _ => exact (add_zero _).symm

theorem flow_deposit (hX : X.Lawful) (h : Located startId s₀ id s) (asset : MultiAsset)
    (location : MultiLocation) (x : R.Account) :
    (R.holding (X.next s (.depositAsset asset location)).world id x : ℤ) =
      R.holding s.world id x + X.flow s₀ id x s (.depositAsset asset location) := by
  rw [flow, next]
  cases hdeposit : X.depositAsset s asset location with
  | error e => cases X.convertLocation location <;> exact (add_zero _).symm
  | ok s' =>
    obtain ⟨l, a, who, amount, w, rfl, hl, hwho, rfl, hadds⟩ := depositAsset_ok hX hdeposit
    rw [hwho, h.worth_eq hl]
    show (R.holding w id x : ℤ) = _
    rw [hadds id x]
    by_cases ha : a = id <;> by_cases hx : who = x <;> simp [ha, hx]

theorem flow_withdraw (hX : X.Lawful) (h : Located startId s₀ id s) (asset : MultiAsset)
    (location : MultiLocation) (x : R.Account) :
    (R.holding (X.next s (.withdrawAsset asset location)).world id x : ℤ) =
      R.holding s.world id x + X.flow s₀ id x s (.withdrawAsset asset location) := by
  rw [flow, next]
  cases hwithdraw : X.withdrawAsset s asset location with
  | error e => cases X.convertLocation location <;> exact (add_zero _).symm
  | ok out =>
    obtain ⟨out, s'⟩ := out
    obtain ⟨l, a, who, amount, w, rfl, hl, hwho, rfl, htakes⟩ := withdrawAsset_ok hX hwithdraw
    rw [hwho, h.worth_eq hl]
    show (R.holding w id x : ℤ) = _
    rw [htakes.holding_eq id x]
    by_cases ha : a = id <;> by_cases hx : who = x <;> simp [ha, hx, sub_eq_add_neg]

theorem flow_revenue (hX : X.Lawful) (h : Located startId s₀ id s) (revenue : MultiAsset)
    (x : R.Account) :
    (R.holding (X.next s (.takeRevenue revenue)).world id x : ℤ) =
      R.holding s.world id x + X.flow s₀ id x s (.takeRevenue revenue) := by
  show (R.holding (X.takeRevenue s revenue).world id x : ℤ) = _
  rcases takeRevenue_cases hX s revenue with
    ⟨l, a, amount, w, rfl, hl, hmint, hnext⟩ | ⟨hnext, hnone⟩
  · have hiff : s₀.locationAssetId.get (.v1 l) = some id ↔ a = id := by
      rw [← h.same, hl, Option.some.injEq]
    rw [hnext]
    show (R.holding w id x : ℤ) = _
    simp only [flow, hiff]
    by_cases hforeign : a = R.nativeAssetId
    · subst hforeign
      rw [hX.mintInto_native _ _ _ _ hmint, if_neg fun hall => hall.2.1 hall.2.2.symm, add_zero]
    · have hadds := hX.mintInto_adds _ _ _ _ _ hforeign hmint
      rw [hadds id x]
      by_cases hall : X.xcmFeesAccount = x ∧ id ≠ R.nativeAssetId ∧ a = id
      · obtain ⟨rfl, -, rfl⟩ := hall
        simp [hforeign, hmint]
      · rw [if_neg hall, if_neg]
        · rfl
        · rintro ⟨rfl, hx⟩
          exact hall ⟨hx, hforeign, rfl⟩
  · rw [hnext]
    obtain ⟨l | _, amount | _⟩ := revenue
    · rw [flow]
      split_ifs with hall
      · obtain ⟨rfl, -, hl⟩ := hall
        rcases hnone l id amount rfl ((h.same _).mpr hl) with rfl | hfail
        · split <;> exact (add_zero _).symm
        · split
          next w hw => exact absurd hw (hfail w)
          next => exact (add_zero _).symm
      · exact (add_zero _).symm
    all_goals exact (add_zero _).symm

/-- The balance of an account before and after a move. -/
theorem next_holding (hX : X.Lawful) (h : Located startId s₀ id s) (m : Move R) (x : R.Account) :
    (R.holding (X.next s m).world id x : ℤ) =
      R.holding s.world id x + X.flow s₀ id x s m := by
  cases m with
  | registry m =>
    cases m with
    | other w =>
      show (R.holding w id x : ℤ) = _ + (_ - _)
      omega
    | call origin call =>
      show (R.holding (call.dispatch origin s).2.world id x : ℤ) = _
      exact flow_call hX origin call x
  | depositAsset asset location => exact flow_deposit hX h asset location x
  | withdrawAsset asset location => exact flow_withdraw hX h asset location x
  | takeRevenue revenue => exact flow_revenue hX h revenue x

end Flows

section Runs
variable {X} {s s₀ : State R} {tr₀ tr : List (State R × Move R)} {startId id : StandardAssetId}

theorem Runs.located (h : X.Runs s₀ tr s) (h₀ : Coherent startId s₀)
    (hid : s₀.assetIdLocation.containsKey id = true)
    (hkeep : ∀ y ∈ tr, ¬ y.2.Relocates id y.1) : Located startId s₀ id s := by
  induction h with
  | nil => exact ⟨h₀, hid, fun _ => Iff.rfl⟩
  | @snoc tr s m _ _ ih =>
    have hlocated := ih fun y hy => hkeep y (List.mem_append_left _ hy)
    exact hlocated.next (hkeep (s, m) (List.mem_append_right _ (List.mem_singleton_self _)))

/-- From any point of a run on, and as long as no call takes a location from a token or gives it
one, the balances of the token follow the messages that name one of its locations. -/
theorem balance_follows_locations (hX : X.Lawful) (hlt : R.nativeAssetId < startId)
    {world : R.World} (h₀ : X.Runs (State.genesis startId world) tr₀ s₀)
    (hid : s₀.assetIdLocation.containsKey id = true) (h : X.Runs s₀ tr s)
    (hkeep : ∀ y ∈ tr, ¬ y.2.Relocates id y.1) (x : R.Account) :
    (R.holding s.world id x : ℤ) = R.holding s₀.world id x +
      (tr.map fun y => X.flow s₀ id x y.1 y.2).sum := by
  have hcoherent : Coherent startId s₀ :=
    h₀.invariant (Coherent.genesis hlt world) fun _ m hs _ => next_coherent hs m
  induction h with
  | nil => exact (add_zero _).symm
  | @snoc tr s m hrun _ ih =>
    have hkeep' : ∀ y ∈ tr, ¬ y.2.Relocates id y.1 :=
      fun y hy => hkeep y (List.mem_append_left _ hy)
    have hlocated := Runs.located hrun hcoherent hid hkeep'
    rw [next_holding hX hlocated, ih hkeep', List.map_append, List.sum_append, List.map_singleton,
      List.sum_singleton, add_assoc]

end Runs

section Witness
open AssetManager.Sample

/-- What pallet-assets does not hold, it does not mint. -/
abbrev foreign : Runtime :=
  { Sample.runtime with
    Account := ℕ
    World := Sample.World
    DispatchError := PalletError
    nativeAssetId := 1
    assetsMintInto := fun w id account amount =>
      if id = 1 then .error .unknown else Sample.runtime.assetsMintInto w id account amount }

/-- `amount` less of token `id` on an account. -/
def burn (w : Sample.World) (id : StandardAssetId) (who : ℕ) (amount : Balance) :
    Except PalletError Sample.World :=
  if amount ≤ w.holdings.balance id who then
    .ok { w with
      holdings := { w.holdings with
        balance := fun j a => if j = id ∧ a = who then w.holdings.balance id who - amount
          else w.holdings.balance j a } }
  else .error (.transfer .noFunds)

/-- The adapter of accounts with an index. -/
def teller : Adapter foreign :=
  { convertLocation := fun l =>
      match l.interior.toList with
      | [.accountIndex64 _ index] => some index.toNat
      | _ => none
    matchesFungibles := fun convert asset =>
      match asset with
      | ⟨.concrete l, .fungible amount⟩ => (convert l).toOption.map fun id => (id, amount)
      | _ => none
    balancesWithdraw := fun w who amount _ => burn w 1 who amount
    assetsBurnFrom := burn
    minimumBalance := fun _ _ => 0
    xcmFeesAccount := (9 : ℕ) }

theorem foreign_holding (w : Sample.World) (id : StandardAssetId) (a : ℕ) :
    foreign.holding w id a = (w.holdings.balance id a).toNat := by
  unfold Frame.holding Frame.token
  split_ifs with h
  · rw [h]
    rfl
  · rfl

theorem burn_takes {w w' : Sample.World} {id : StandardAssetId} {who : ℕ} {amount : Balance}
    (h : burn w id who amount = .ok w') : teller.Takes w w' id who amount.toNat := by
  unfold burn at h
  split_ifs at h with hle
  obtain rfl := Except.ok.inj h
  intro j x
  rw [foreign_holding, foreign_holding, foreign_holding]
  show (if j = id ∧ x = who then w.holdings.balance id who - amount
    else w.holdings.balance j x).toNat = _
  by_cases hsame : id = j ∧ who = x
  · obtain ⟨rfl, rfl⟩ := hsame
    have hnone : ¬ (0 < amount.toNat ∧ (w.holdings.balance id who).toNat - amount.toNat < 0) :=
      fun h => Nat.not_lt_zero _ h.2
    rw [if_pos ⟨rfl, rfl⟩, if_pos ⟨rfl, rfl⟩, BitVec.toNat_sub_of_le hle]
    exact (if_neg hnone).symm
  · have hother : ¬ (j = id ∧ x = who) := fun h => hsame ⟨h.1.symm, h.2.symm⟩
    rw [if_neg hsame, if_neg hother]

theorem mint_adds {w : Sample.World} {id : StandardAssetId} {who : ℕ} {amount : Balance}
    (h : (w.holdings.balance id who).toNat + amount.toNat < 2 ^ 128) :
    foreign.Adds w (mint w id who amount) id who amount.toNat := by
  intro j x
  rw [foreign_holding, foreign_holding]
  by_cases hsame : id = j ∧ who = x
  · obtain ⟨rfl, rfl⟩ := hsame
    simp only [mint, and_self, if_true, BitVec.toNat_add]
    exact Nat.mod_eq_of_lt h
  · have hother : ¬ (j = id ∧ x = who) := fun h => hsame ⟨h.1.symm, h.2.symm⟩
    simp only [mint, if_neg hsame, if_neg hother, add_zero]

theorem create_same {w w' : Sample.World} {id : StandardAssetId} (h : create w id = .ok w') :
    foreign.SameHoldings w w' := by
  unfold create at h
  split_ifs at h
  obtain rfl := Except.ok.inj h
  intro j x
  rw [foreign_holding, foreign_holding]

theorem setMetadata_same {w w' : Sample.World} {id : StandardAssetId}
    (h : setMetadata w id = .ok w') : foreign.SameHoldings w w' := by
  unfold setMetadata at h
  split_ifs at h
  obtain rfl := Except.ok.inj h
  exact fun _ _ => rfl

theorem teller_lawful : teller.Lawful where
  matches_iff convert asset id amount := by
    obtain ⟨l | _, n | _⟩ := asset
    · cases hconvert : convert l <;> simp [teller, hconvert, Except.toOption, and_comm]
    all_goals simp [teller]
  depositCreating_adds w who amount h := mint_adds (Holdings.canDeposit_fits h)
  mintInto_adds w w' id who amount hne h := by
    simp only [foreign, Sample.runtime] at h
    rw [if_neg hne] at h
    split_ifs at h with hfits
    obtain rfl := Except.ok.inj h
    exact mint_adds (Nat.lt_of_not_le hfits)
  mintInto_native w w' who amount h := by cases h
  withdraw_takes w w' who amount h := burn_takes h
  burnFrom_takes w w' id who amount _ h := burn_takes h
  create_same _ _ _ _ _ _ h := create_same h
  setMetadata_same _ _ _ _ _ _ _ h := setMetadata_same h
  forceCreate_same _ _ _ _ _ _ h := create_same h
  forceSetMetadata_same _ _ _ _ _ _ _ h := setMetadata_same h

def account (index : BitVec 64) : MultiLocation :=
  ⟨0, [.accountIndex64 .any index], Nat.le_add_left 1 7⟩

/-- A token at the sibling 2000 is registered. -/
def setup : List (Move foreign) :=
  [.registry (.call .root (.forceRegisterAsset (chain 2000) (token 8)))]

def asset (amount : Balance) : MultiAsset := ⟨.concrete (.sibling 2000), .fungible amount⟩

def messages : List (Move foreign) :=
  [.depositAsset (asset 50) (account 3), .withdrawAsset (asset 20) (account 3),
    .takeRevenue (asset 4), .depositAsset ⟨.concrete (.sibling 2001), .fungible 7⟩ (account 3),
    .registry (.call .root (.forceMintAsset 8 (3 : ℕ) 5))]

def opened : State foreign := .genesis 8 start.world

/-- The messages of the sibling 2000 leave 35 of its token on the third account. -/
theorem balance_follows_locations_sample :
    (foreign.holding (messages.foldl teller.next (setup.foldl teller.next opened)).world 8
      (3 : ℕ) : ℤ) = 35 ∧
    (foreign.holding (messages.foldl teller.next (setup.foldl teller.next opened)).world 8
      (3 : ℕ) : ℤ) = foreign.holding (setup.foldl teller.next opened).world 8 (3 : ℕ) +
        ((trace teller.next (setup.foldl teller.next opened) messages).map fun y =>
          teller.flow (setup.foldl teller.next opened) 8 (3 : ℕ) y.1 y.2).sum := by
  refine ⟨by decide +kernel, ?_⟩
  refine balance_follows_locations teller_lawful (by decide) (Run.play fun _ _ => trivial)
    (by decide +kernel) (Run.play fun _ _ => trivial) ?_ (3 : ℕ)
  intro y hy
  have hmem := mem_of_trace hy
  simp only [messages, List.mem_cons, List.not_mem_nil, or_false] at hmem
  rcases hmem with hm | hm | hm | hm | hm <;> rw [hm] <;> exact fun hfalse => hfalse

end Witness

end Adapter
end AssetManager
end ZkNft
