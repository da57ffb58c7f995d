import ZkNft.Lib.Exec
import ZkNft.Lib.StorageMap
import ZkNft.Lib.Utf8

/-! The pallet that pauses calls of the runtime, one at a time, in lists or by pallet. -/

namespace ZkNft
namespace TxPause

/-- The bytes of the name of a pallet or of a call. -/
abbrev Name := List UInt8

structure CallMetadata where
  functionName : String
  palletName : String

/-- The configuration of the pallet, and the calls of the runtime. -/
structure Runtime where
  Origin : Type
  Call : Type
  getCallMetadata : Call → CallMetadata
  /-- The names of the calls of a pallet. The code is unreachable for a pallet that is not there. -/
  getCallNames : String → Option (List String)
  maxCallNames : ℕ
  pauseOrigin : Origin → Bool
  unpauseOrigin : Origin → Bool
  nonPausablePallets : Name → Bool
  /-- `PalletInfoAccess::name` of this pallet. -/
  name : String

/-- `GetCallMetadata` lists the call names of each pallet exactly. -/
def Runtime.ListsCalls (R : Runtime) : Prop := ∀ palletName functionName,
  (∃ call, R.getCallMetadata call = ⟨functionName, palletName⟩) ↔
    ∃ names, R.getCallNames palletName = some names ∧ functionName ∈ names

inductive Error where
  | cannotPause
  | invalidCharacter
  | tooManyCalls
  deriving DecidableEq

inductive DispatchError where
  | badOrigin
  | module (e : Error)
  deriving DecidableEq

inductive Event where
  | transactionPaused (palletName functionName : Name)
  | transactionUnpaused (palletName functionName : Name)
  | palletPaused (palletName : Name)
  | palletUnpaused (palletName : Name)

structure State where
  pausedTransactions : StorageMap (Name × Name) Unit
  events : List Event

def State.empty : State := ⟨.empty, []⟩

abbrev Update := Tx State DispatchError PUnit

def depositEvent (e : Event) : Update := Tx.modify fun s => { s with events := s.events ++ [e] }

/-- `sp_std::str::from_utf8`. -/
def fromUtf8 (name : Name) : Tx State DispatchError String :=
  Tx.read fun _ => .okOr (Utf8.fromBytes name) (.module .invalidCharacter)

variable (R : Runtime)

def ensureOrigin (allowed : R.Origin → Bool) (origin : R.Origin) : Update :=
  Tx.read fun _ => .ensure (allowed origin = true) .badOrigin

def getCallNames (palletName : String) : Tx State DispatchError (List String) :=
  Tx.read fun _ => .expect "internal error: entered unreachable code" (R.getCallNames palletName)

def ensureCanPause (palletName : Name) : Update := do
  let palletNameString ← fromUtf8 palletName
  Tx.read fun _ => .ensure (palletNameString ≠ R.name) (.module .cannotPause)
  Tx.read fun _ => .ensure (R.nonPausablePallets palletName = false) (.module .cannotPause)

def pauseOne (palletName functionName : Name) (event : Bool) : Update := Tx.modify fun s =>
  if s.pausedTransactions.containsKey (palletName, functionName) then s
  else
    { pausedTransactions := s.pausedTransactions.insert (palletName, functionName) ()
      events := if event then s.events ++ [.transactionPaused palletName functionName]
        else s.events }

def unpauseOne (palletName functionName : Name) : Update := Tx.modify fun s =>
  if s.pausedTransactions.containsKey (palletName, functionName) then
    { pausedTransactions := s.pausedTransactions.remove (palletName, functionName)
      events := s.events ++ [.transactionUnpaused palletName functionName] }
  else s

/-- `take` on the storage map. -/
def take (palletName functionName : Name) : Update := Tx.modify fun s =>
  { s with pausedTransactions := s.pausedTransactions.remove (palletName, functionName) }

def pauseTransaction (origin : R.Origin) (palletName functionName : Name) : Update :=
  Tx.transactional do
    ensureOrigin R R.pauseOrigin origin
    ensureCanPause R palletName
    pauseOne palletName functionName true

def unpauseTransaction (origin : R.Origin) (palletName functionName : Name) : Update :=
  Tx.transactional do
    ensureOrigin R R.unpauseOrigin origin
    unpauseOne palletName functionName

def pauseTransactions (origin : R.Origin) (palletAndFuncs : List (Name × List Name)) : Update :=
  Tx.transactional do
    ensureOrigin R R.pauseOrigin origin
    palletAndFuncs.forM fun (palletName, functionName) => do
      ensureCanPause R palletName
      functionName.forM fun callName => pauseOne palletName callName true

def unpauseTransactions (origin : R.Origin) (palletAndFuncs : List (Name × List Name)) : Update :=
  Tx.transactional do
    ensureOrigin R R.unpauseOrigin origin
    palletAndFuncs.forM fun (palletName, functionName) =>
      functionName.forM fun callName => unpauseOne palletName callName

def pausePallets (origin : R.Origin) (palletNames : List Name) : Update :=
  Tx.transactional do
    ensureOrigin R R.pauseOrigin origin
    palletNames.forM fun palletName => do
      ensureCanPause R palletName
      let palletNameString ← fromUtf8 palletName
      let functionName ← getCallNames R palletNameString
      Tx.read fun _ => .ensure (functionName.length < R.maxCallNames) (.module .tooManyCalls)
      functionName.forM fun callName => pauseOne palletName (Utf8.asBytes callName) false
      depositEvent (.palletPaused palletName)

def unpausePallets (origin : R.Origin) (palletNames : List Name) : Update :=
  Tx.transactional do
    ensureOrigin R R.unpauseOrigin origin
    palletNames.forM fun palletName => do
      let palletNameString ← fromUtf8 palletName
      let functionName ← getCallNames R palletNameString
      functionName.forM fun callName => take palletName (Utf8.asBytes callName)
      depositEvent (.palletUnpaused palletName)

/-- The calls of the pallet. -/
inductive Operation where
  | pauseTransaction (palletName functionName : Name)
  | unpauseTransaction (palletName functionName : Name)
  | pauseTransactions (palletAndFuncs : List (Name × List Name))
  | unpauseTransactions (palletAndFuncs : List (Name × List Name))
  | pausePallets (palletNames : List Name)
  | unpausePallets (palletNames : List Name)

def Operation.dispatch (origin : R.Origin) : Operation → Update
  | pauseTransaction palletName functionName =>
    TxPause.pauseTransaction R origin palletName functionName
  | unpauseTransaction palletName functionName =>
    TxPause.unpauseTransaction R origin palletName functionName
  | pauseTransactions palletAndFuncs => TxPause.pauseTransactions R origin palletAndFuncs
  | unpauseTransactions palletAndFuncs => TxPause.unpauseTransactions R origin palletAndFuncs
  | pausePallets palletNames => TxPause.pausePallets R origin palletNames
  | unpausePallets palletNames => TxPause.unpausePallets R origin palletNames

/-- `Contains` of the filter: the call is paused. -/
def PausedTransactionFilter.contains (s : State) (call : R.Call) : Bool :=
  s.pausedTransactions.containsKey
    (Utf8.asBytes (R.getCallMetadata call).palletName,
      Utf8.asBytes (R.getCallMetadata call).functionName)

end TxPause
end ZkNft
