import ZkNft.Lib.Exec
import ZkNft.Primitives.Trader

/-! The barrier for paid messages that descend their origin first. It writes the weight limit of a
message that it lets through. -/

namespace ZkNft

inductive WeightLimit where
  | unlimited
  | limited (weight : Weight)
  deriving DecidableEq

/-- An instruction of XCM version 2; those that the barrier does not look into are kept together. -/
inductive Instruction (Other : Type) where
  | withdrawAsset (assets : List MultiAsset)
  | descendOrigin (location : Junctions)
  | buyExecution (fees : MultiAsset) (weightLimit : WeightLimit)
  | other (instruction : Other)

variable {Other : Type}

namespace Instruction

def isDescendOrigin : Instruction Other → Bool
  | descendOrigin _ => true
  | withdrawAsset _ => false
  | buyExecution _ _ => false
  | other _ => false

def isWithdrawAsset : Instruction Other → Bool
  | withdrawAsset _ => true
  | descendOrigin _ => false
  | buyExecution _ _ => false
  | other _ => false

end Instruction

/-- A check that may write to the message. -/
abbrev Screening (Other α : Type) := Tx (List (Instruction Other)) PUnit α

def refuse : Screening Other PUnit := Tx.read fun _ => .err ⟨⟩

/-- `ShouldExecute` of the primitives. -/
def AllowTopLevelPaidExecutionDescendOriginFirst.shouldExecute (contains : MultiLocation → Bool)
    (origin : MultiLocation) (maxWeight : Weight) : Screening Other PUnit := do
  Tx.read fun _ => .ensure (contains origin = true) ⟨⟩
  let _ ← Tx.read fun message => .okOr (message[0]?.filter Instruction.isDescendOrigin) ⟨⟩
  let _ ← Tx.read fun message => .okOr (message[1]?.filter Instruction.isWithdrawAsset) ⟨⟩
  let i ← Tx.read fun message => .okOr message[2]? ⟨⟩
  match i with
  | .buyExecution fees (.limited weight) =>
    if weight ≥ maxWeight then
      Tx.modify fun message => message.set 2 (.buyExecution fees (.limited maxWeight))
    else refuse
  | .buyExecution fees .unlimited =>
    Tx.modify fun message => message.set 2 (.buyExecution fees (.limited maxWeight))
  | _ => refuse

/-- The copy in the configuration of the dolphin runtime. -/
def Dolphin.AllowTopLevelPaidExecutionDescendOriginFirst.shouldExecute
    (contains : MultiLocation → Bool) (origin : MultiLocation) (maxWeight : Weight) :
    Screening Other PUnit := do
  Tx.read fun _ => .ensure (contains origin = true) ⟨⟩
  let _ ← Tx.read fun message => .okOr (message[0]?.filter Instruction.isDescendOrigin) ⟨⟩
  let _ ← Tx.read fun message => .okOr (message[1]?.filter Instruction.isWithdrawAsset) ⟨⟩
  let i ← Tx.read fun message => .okOr message[2]? ⟨⟩
  match i with
  | .buyExecution fees (.limited weight) =>
    if weight ≥ maxWeight then
      Tx.modify fun message => message.set 2 (.buyExecution fees (.limited maxWeight))
    else refuse
  | .buyExecution fees .unlimited =>
    Tx.modify fun message => message.set 2 (.buyExecution fees (.limited maxWeight))
  | _ => refuse

/-- The limit leaves room for the weight. -/
def WeightLimit.Covers (limit : WeightLimit) (maxWeight : Weight) : Prop :=
  limit = .unlimited ∨ ∃ weight, limit = .limited weight ∧ maxWeight ≤ weight

/-- The message descends its origin, withdraws, and buys enough weight; `message'` is the message
with exactly that weight. -/
def PaidFirst (maxWeight : Weight) (message message' : List (Instruction Other)) : Prop :=
  ∃ location assets fees limit rest,
    message = .descendOrigin location :: .withdrawAsset assets :: .buyExecution fees limit ::
      rest ∧
    limit.Covers maxWeight ∧
    message' = .descendOrigin location :: .withdrawAsset assets ::
      .buyExecution fees (.limited maxWeight) :: rest

section Front
variable {maxWeight : Weight} {front rest message : List (Instruction Other)}

/-- What comes behind a paid front stays behind it. -/
theorem PaidFirst.append {front' : List (Instruction Other)} (h : PaidFirst maxWeight front front')
    (rest : List (Instruction Other)) : PaidFirst maxWeight (front ++ rest) (front' ++ rest) := by
  obtain ⟨location, assets, fees, limit, behind, rfl, hlimit, rfl⟩ := h
  exact ⟨location, assets, fees, limit, behind ++ rest, rfl, hlimit, rfl⟩

theorem PaidFirst.of_append (hlen : 3 ≤ front.length)
    (h : PaidFirst maxWeight (front ++ rest) message) :
    ∃ front', PaidFirst maxWeight front front' := by
  obtain ⟨location, assets, fees, limit, behind, heq, hlimit, -⟩ := h
  match front, hlen with
  | d :: w :: b :: front, _ =>
    simp only [List.cons_append, List.cons.injEq] at heq
    obtain ⟨rfl, rfl, rfl, -⟩ := heq
    exact ⟨_, location, assets, fees, limit, front, rfl, hlimit, rfl⟩

end Front

namespace AllowTopLevelPaidExecutionDescendOriginFirst
variable {contains : MultiLocation → Bool} {origin : MultiLocation} {maxWeight : Weight}
  {message message' front : List (Instruction Other)} {u : PUnit}

theorem filter_isDescendOrigin {i : Option (Instruction Other)} {j : Instruction Other} :
    i.filter Instruction.isDescendOrigin = some j ↔
      ∃ location, i = some (.descendOrigin location) ∧ j = .descendOrigin location := by
  rw [Option.filter_eq_some_iff]
  constructor
  · rintro ⟨rfl, hj⟩
    cases j with
    | descendOrigin location => exact ⟨location, rfl, rfl⟩
    | _ => cases hj
  · rintro ⟨location, rfl, rfl⟩
    exact ⟨rfl, rfl⟩

theorem filter_isWithdrawAsset {i : Option (Instruction Other)} {j : Instruction Other} :
    i.filter Instruction.isWithdrawAsset = some j ↔
      ∃ assets, i = some (.withdrawAsset assets) ∧ j = .withdrawAsset assets := by
  rw [Option.filter_eq_some_iff]
  constructor
  · rintro ⟨rfl, hj⟩
    cases j with
    | withdrawAsset assets => exact ⟨assets, rfl, rfl⟩
    | _ => cases hj
  · rintro ⟨assets, rfl, rfl⟩
    exact ⟨rfl, rfl⟩

theorem shouldExecute_ok :
    shouldExecute contains origin maxWeight message = (.ok u, message') ↔
      contains origin = true ∧ PaidFirst maxWeight message message' := by
  unfold shouldExecute
  simp only [Tx.read_bind_ok, Exec.ensure_eq_ok, Exec.okOr_eq_ok, filter_isDescendOrigin,
    filter_isWithdrawAsset]
  constructor
  · rintro ⟨_, hcontains, _, ⟨location, hd, -⟩, _, ⟨assets, hw, -⟩, i, hi, h⟩
    rcases message with _ | ⟨d, _ | ⟨w, _ | ⟨b, rest⟩⟩⟩
    · cases hd
    · cases hw
    · cases hi
    obtain rfl := Option.some.inj hd
    obtain rfl := Option.some.inj hw
    obtain rfl := Option.some.inj hi
    refine ⟨hcontains, location, assets, ?_⟩
    cases b with
    | buyExecution fees limit =>
      cases limit with
      | unlimited => exact ⟨fees, _, rest, rfl, .inl rfl, Tx.modify_ok.mp h⟩
      | limited weight =>
        dsimp only at h
        split_ifs at h with hle
        · exact ⟨fees, _, rest, rfl, .inr ⟨weight, rfl, hle⟩, Tx.modify_ok.mp h⟩
        · cases h
    | _ => cases h
  · rintro ⟨hcontains, location, assets, fees, limit, rest, rfl, hlimit, rfl⟩
    refine ⟨⟨⟩, hcontains, _, ⟨location, rfl, rfl⟩, _, ⟨assets, rfl, rfl⟩, _, rfl, ?_⟩
    rcases hlimit with rfl | ⟨weight, rfl, hle⟩
    · exact Tx.modify_ok.mpr rfl
    · dsimp only
      rw [if_pos hle]
      exact Tx.modify_ok.mpr rfl

/-- A message is written to only in the last step. -/
theorem shouldExecute_refused (h : (shouldExecute contains origin maxWeight message).1 ≠ .ok ⟨⟩) :
    shouldExecute contains origin maxWeight message = (.err ⟨⟩, message) := by
  unfold shouldExecute at h ⊢
  simp only [Tx.bind_run, Tx.bind, Tx.read_run] at h ⊢
  by_cases hcontains : contains origin = true
  swap
  · simp only [Exec.ensure, if_neg hcontains]
  simp only [Exec.ensure, if_pos hcontains] at h ⊢
  cases hd : message[0]?.filter Instruction.isDescendOrigin with
  | none => simp only [Exec.okOr]
  | some d =>
    cases hw : message[1]?.filter Instruction.isWithdrawAsset with
    | none => simp only [hw, Exec.okOr]
    | some w =>
      cases hi : message[2]? with
      | none => simp only [hw, hi, Exec.okOr]
      | some i =>
        simp only [hd, hw, hi, Exec.okOr] at h ⊢
        cases i with
        | buyExecution fees limit =>
          cases limit with
          | unlimited => exact absurd rfl h
          | limited weight =>
            dsimp only at h ⊢
            split_ifs at h ⊢
            · exact absurd rfl h
            · rfl
        | _ => rfl

/-- Only the first three instructions decide, and only they are written to. -/
theorem shouldExecute_append (hlen : 3 ≤ front.length) (rest : List (Instruction Other)) :
    shouldExecute contains origin maxWeight (front ++ rest) =
      ((shouldExecute contains origin maxWeight front).1,
        (shouldExecute contains origin maxWeight front).2 ++ rest) := by
  by_cases hok : (shouldExecute contains origin maxWeight front).1 = .ok ⟨⟩
  · have ⟨hcontains, hpaid⟩ := shouldExecute_ok.mp (Tx.run_of_fst hok)
    rw [hok]
    exact shouldExecute_ok.mpr ⟨hcontains, hpaid.append rest⟩
  · rw [shouldExecute_refused hok]
    apply shouldExecute_refused
    intro hrest
    have ⟨hcontains, hpaid⟩ := shouldExecute_ok.mp (Tx.run_of_fst hrest)
    obtain ⟨front', hfront⟩ := hpaid.of_append hlen
    have hrun := (shouldExecute_ok (u := ⟨⟩)).mpr ⟨hcontains, hfront⟩
    exact hok (congrArg Prod.fst hrun)

/-- The barrier accepts exactly the paid messages from the origins of the filter, and writes exactly
their weight limit. A message it refuses is as it was, what comes behind the first three
instructions does not matter, and the copy in the runtime does the same. -/
theorem shouldExecute_exact (contains : MultiLocation → Bool) (origin : MultiLocation)
    (maxWeight : Weight) :
    (∀ message message' : List (Instruction Other),
      shouldExecute contains origin maxWeight message = (.ok ⟨⟩, message') ↔
        contains origin = true ∧ PaidFirst maxWeight message message') ∧
    (∀ message : List (Instruction Other),
      (shouldExecute contains origin maxWeight message).1 ≠ .ok ⟨⟩ →
        shouldExecute contains origin maxWeight message = (.err ⟨⟩, message)) ∧
    (∀ front rest : List (Instruction Other), 3 ≤ front.length →
      shouldExecute contains origin maxWeight (front ++ rest) =
        ((shouldExecute contains origin maxWeight front).1,
          (shouldExecute contains origin maxWeight front).2 ++ rest)) ∧
    (Dolphin.AllowTopLevelPaidExecutionDescendOriginFirst.shouldExecute contains origin maxWeight :
      Screening Other PUnit) = shouldExecute contains origin maxWeight :=
  ⟨fun _ _ => shouldExecute_ok, fun _ h => shouldExecute_refused h,
    fun _ rest h => shouldExecute_append h rest, rfl⟩

end AllowTopLevelPaidExecutionDescendOriginFirst
end ZkNft
