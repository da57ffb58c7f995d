import ZkNft.Lib.Exec

/-! Where a call comes from. -/

/-- An account, the chain itself, or nobody. -/
inductive RawOrigin (Account : Type) where
  | signed (account : Account)
  | root
  | none

namespace RawOrigin

variable {Account ε : Type} {badOrigin : ε} {origin : RawOrigin Account}

def ensureSigned (badOrigin : ε) : RawOrigin Account → Exec ε Account
  | .signed account => .ok account
  | .root => .err badOrigin
  | .none => .err badOrigin

def ensureRoot (badOrigin : ε) : RawOrigin Account → Exec ε PUnit
  | .root => .ok ⟨⟩
  | .signed _ => .err badOrigin
  | .none => .err badOrigin

theorem ensureSigned_eq_ok {who : Account} :
    ensureSigned badOrigin origin = .ok who ↔ origin = .signed who := by
  cases origin <;> simp [ensureSigned]

theorem ensureRoot_eq_ok {u : PUnit} :
    ensureRoot badOrigin origin = .ok u ↔ origin = .root := by
  cases origin <;> simp [ensureRoot]

theorem ensureSigned_returns (origin : RawOrigin Account) :
    (origin.ensureSigned badOrigin).Returns := by
  cases origin <;> simp [ensureSigned]

theorem ensureRoot_returns (origin : RawOrigin Account) :
    (origin.ensureRoot badOrigin).Returns := by
  cases origin <;> simp [ensureRoot]

end RawOrigin
