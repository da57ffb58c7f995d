import ZkNft.Lib.KeyOrder
import ZkNft.Lib.Origin
import ZkNft.Lib.PerThing
import Mathlib.Data.List.Dedup

/-! The collator selection pallet: its storage, its calls, and the two hooks that the authorship and
session pallets call. Events, weights and logs are left out. -/

namespace ZkNft
namespace CollatorSelection

abbrev Percent := PerThing 100

abbrev Origin (Account : Type) := RawOrigin Account

/-- The configuration of the pallet, with the balances and the session keys of its runtime. -/
structure Runtime (Account World : Type) where
  ValidatorId : Type
  isUpdateOrigin : Origin Account → Bool
  freeBalance : World → Account → ℕ
  reservedBalance : World → Account → ℕ
  minimumBalance : ℕ
  reserve : World → Account → ℕ → Option World
  /-- What is reserved pays as much of the amount as it can. -/
  unreserve : World → Account → ℕ → World
  /-- A transfer that keeps the sender alive. -/
  transfer : World → Account → Account → ℕ → Option World
  /-- The account of the pot. -/
  accountId : Account
  validatorIdOf : Account → Option ValidatorId
  accountIdOf : ValidatorId → Account
  isRegistered : World → ValidatorId → Bool
  validators : World → List ValidatorId
  maxCandidates : ℕ
  maxInvulnerables : ℕ
  /-- Storage maps are walked through by the hashes of their keys. -/
  hash : Account → ℕ
  hash_injective : Function.Injective hash
  /-- `StorageMap::clear` takes out some entries, and returns a cursor where more may be left. -/
  clear : ℕ → Option (List UInt8) → KeyOrder hash ℕ → KeyOrder hash ℕ × Option (List UInt8)
  clear_none : ∀ limit cursor m, (clear limit cursor m).2 = none →
    (clear limit cursor m).1.entries = []
  /-- The first call takes out up to `limit` entries. -/
  clear_within : ∀ limit m, m.entries.length ≤ limit → (clear limit none m).2 = none
  /-- A cursor is the prefix of the map in the storage. -/
  clear_cursor : ∀ limit limit' cursor cursor' m m' c c', (clear limit cursor m).2 = some c →
    (clear limit' cursor' m').2 = some c' → c = c'
  /-- `sort_unstable_by_key` on the count of blocks: the order of equal counts is not promised. -/
  sortByBlocks : List (Account × ℕ) → List (Account × ℕ)
  sortByBlocks_perm : ∀ l, (sortByBlocks l).Perm l
  sortByBlocks_sorted : ∀ l, (sortByBlocks l).Pairwise fun a b => a.2 ≤ b.2

structure CandidateInfo (Account : Type) where
  who : Account
  /-- Reserved deposit. -/
  deposit : ℕ
  deriving DecidableEq

inductive Error where
  | tooManyCandidates
  | alreadyCandidate
  | notCandidate
  | alreadyInvulnerable
  | noAssociatedValidatorId
  | validatorNotRegistered
  | notAllowRemoveInvulnerable
  deriving DecidableEq

inductive DispatchError where
  | badOrigin
  | module (e : Error)
  /-- The error of the currency. -/
  | currency
  deriving DecidableEq

variable {Account World : Type}

structure State (R : Runtime Account World) where
  invulnerables : List Account
  candidates : List (CandidateInfo Account)
  blocksPerCollatorThisSession : KeyOrder R.hash ℕ
  evictionBaseline : Percent
  evictionTolerance : Percent
  desiredCandidates : ℕ
  candidacyBond : ℕ
  world : World

variable {R : Runtime Account World}

abbrev Update (R : Runtime Account World) (α : Type) := Tx (State R) DispatchError α

abbrev ensureSigned (origin : Origin Account) : Exec DispatchError Account :=
  origin.ensureSigned .badOrigin

def ensureUpdateOrigin (origin : Origin Account) : Update R PUnit :=
  Tx.read fun _ => .ensure (R.isUpdateOrigin origin = true) .badOrigin

def ensure (p : State R → Bool) (e : Error) : Update R PUnit :=
  Tx.read fun s => .ensure (p s = true) (.module e)

variable [LinearOrder Account]

namespace State
variable (s : State R)

def isInvulnerable (who : Account) : Bool := s.invulnerables.contains who

def isCandidate (who : Account) : Bool := s.candidates.any fun c => c.who = who

/-- The accounts of the candidates. -/
def candidateIds : List Account := s.candidates.map CandidateInfo.who

end State

section Genesis

structure GenesisConfig (R : Runtime Account World) where
  invulnerables : List Account
  candidacyBond : ℕ
  evictionBaseline : Percent
  evictionTolerance : Percent
  desiredCandidates : ℕ

/-- A failed `assert!`. -/
def assertThat (p : Bool) (msg : String) : Exec DispatchError PUnit :=
  if p then .ok ⟨⟩ else .trap (.expect msg)

/-- The storage after the genesis block. -/
def GenesisConfig.build (self : GenesisConfig R) (world : World) :
    Exec DispatchError (State R) := do
  assertThat (self.invulnerables.dedup.length = self.invulnerables.length)
    "duplicate invulnerables in genesis."
  assertThat (R.maxInvulnerables ≥ self.invulnerables.length % 2 ^ 32)
    "genesis invulnerables are more than T::MaxInvulnerables"
  assertThat (R.maxCandidates ≥ self.desiredCandidates)
    "genesis desired_candidates are more than T::MaxCandidates"
  assertThat (self.evictionBaseline.parts ≤ 100)
    "Eviction baseline must be given as a percentile - number between 0 and 100"
  assertThat (self.evictionTolerance.parts ≤ 100)
    "Eviction tolerance must be given as a percentage - number between 0 and 100"
  return {
    invulnerables := self.invulnerables
    candidates := []
    blocksPerCollatorThisSession := .empty
    evictionBaseline := self.evictionBaseline
    evictionTolerance := self.evictionTolerance
    desiredCandidates := self.desiredCandidates
    candidacyBond := self.candidacyBond
    world }

end Genesis

section Calls

def setInvulnerables (origin : Origin Account) (new : List Account) : Update R PUnit := do
  ensureUpdateOrigin origin
  Tx.modify fun s => { s with invulnerables := new }

def setDesiredCandidates (origin : Origin Account) (max : ℕ) : Update R PUnit := do
  ensureUpdateOrigin origin
  Tx.modify fun s => { s with desiredCandidates := max }

def setCandidacyBond (origin : Origin Account) (bond : ℕ) : Update R PUnit := do
  ensureUpdateOrigin origin
  Tx.modify fun s => { s with candidacyBond := bond }

/-- What the two registrations have in common. -/
def register (who : Account) : Update R PUnit := do
  ensure (fun s => s.candidates.length % 2 ^ 32 < s.desiredCandidates) .tooManyCandidates
  ensure (fun s => !s.isInvulnerable who) .alreadyInvulnerable
  let validatorKey ← Tx.read fun _ =>
    .okOr (R.validatorIdOf who) (.module .noAssociatedValidatorId)
  ensure (fun s => R.isRegistered s.world validatorKey) .validatorNotRegistered
  ensure (fun s => !s.isCandidate who) .alreadyCandidate
  let world ← Tx.read fun s => .okOr (R.reserve s.world who s.candidacyBond) .currency
  Tx.modify fun s => { s with
    world
    candidates := s.candidates ++ [⟨who, s.candidacyBond⟩] }

def registerAsCandidate (origin : Origin Account) : Update R PUnit := do
  let who ← Tx.read fun _ => ensureSigned origin
  register who

def registerCandidate (origin : Origin Account) (newCandidate : Account) : Update R PUnit := do
  ensureUpdateOrigin origin
  register newCandidate

/-- Removes the first entry of a candidate and pays its deposit back. -/
def tryRemoveCandidate (who : Account) : Update R PUnit := do
  let candidate ← Tx.read fun s =>
    .okOr (s.candidates.find? fun c => c.who = who) (.module .notCandidate)
  Tx.modify fun s => { s with
    world := R.unreserve s.world who candidate.deposit
    candidates := s.candidates.eraseP fun c => c.who = who }

def leaveIntent (origin : Origin Account) : Update R PUnit := do
  let who ← Tx.read fun _ => ensureSigned origin
  tryRemoveCandidate who

def removeCollator (origin : Origin Account) (collator : Account) : Update R PUnit := do
  ensureUpdateOrigin origin
  ensure (fun s => !s.isInvulnerable collator) .notAllowRemoveInvulnerable
  tryRemoveCandidate collator

def setEvictionBaseline (origin : Origin Account) (percentile : Percent) : Update R PUnit := do
  ensureUpdateOrigin origin
  Tx.modify fun s => { s with evictionBaseline := percentile }

def setEvictionTolerance (origin : Origin Account) (percentage : Percent) : Update R PUnit := do
  ensureUpdateOrigin origin
  Tx.modify fun s => { s with evictionTolerance := percentage }

end Calls

inductive Call (R : Runtime Account World) where
  | setInvulnerables (new : List Account)
  | setDesiredCandidates (max : ℕ)
  | setCandidacyBond (bond : ℕ)
  | registerAsCandidate
  | registerCandidate (newCandidate : Account)
  | leaveIntent
  | removeCollator (collator : Account)
  | setEvictionBaseline (percentile : Percent)
  | setEvictionTolerance (percentage : Percent)

def Call.run (origin : Origin Account) : Call R → Update R PUnit
  | .setInvulnerables new => CollatorSelection.setInvulnerables origin new
  | .setDesiredCandidates max => CollatorSelection.setDesiredCandidates origin max
  | .setCandidacyBond bond => CollatorSelection.setCandidacyBond origin bond
  | .registerAsCandidate => CollatorSelection.registerAsCandidate origin
  | .registerCandidate newCandidate => CollatorSelection.registerCandidate origin newCandidate
  | .leaveIntent => CollatorSelection.leaveIntent origin
  | .removeCollator collator => CollatorSelection.removeCollator origin collator
  | .setEvictionBaseline percentile => CollatorSelection.setEvictionBaseline origin percentile
  | .setEvictionTolerance percentage => CollatorSelection.setEvictionTolerance origin percentage

/-- A dispatched call that fails is rolled back. -/
def Call.dispatch (origin : Origin Account) (call : Call R) : Update R PUnit :=
  Tx.transactional (call.run origin)

section Session

/-- Half of the pot goes to the author, whose blocks are counted. -/
def State.noteAuthor (s : State R) (author : Account) : State R :=
  let reward := (R.freeBalance s.world R.accountId - R.minimumBalance) / 2
  let blocks := (s.blocksPerCollatorThisSession.get author).getD 0
  { s with
    world := (R.transfer s.world R.accountId author reward).getD s.world
    blocksPerCollatorThisSession :=
      s.blocksPerCollatorThisSession.insert author (min (blocks + 1) (2 ^ 32 - 1)) }

def State.assembleCollators (s : State R) (candidates : List Account) : List Account :=
  s.invulnerables ++ candidates

/-- Step 5: the walk through the slice below the percentile, with the accounts it removes. A failure
to remove is logged. -/
def kick (candidates : List (CandidateInfo Account)) (evictBelowBlocks : ℕ) :
    List (Account × ℕ) → State R → List Account × State R
  | [], s => ([], s)
  | (accId, myBlocks) :: rest, s =>
    if myBlocks < evictBelowBlocks ∧ (candidates.any fun c => c.who = accId) = true then
      match tryRemoveCandidate accId s with
      | (.ok _, s') => (accId :: (kick candidates evictBelowBlocks rest s').1,
          (kick candidates evictBelowBlocks rest s').2)
      | (_, s') => kick candidates evictBelowBlocks rest s'
    else kick candidates evictBelowBlocks rest s

/-- The removed accounts. -/
def evictBadCollators (candidates : List (CandidateInfo Account)) :
    Update R (List Account) := fun s =>
  let percentileForKick := s.evictionBaseline
  let underperformanceTolerated := s.evictionTolerance
  if candidates = [] then (.ok [], s)
  else if percentileForKick.parts = 0 then (.ok [], s)
  else if underperformanceTolerated.parts = 100 then (.ok [], s)
  else if s.blocksPerCollatorThisSession.entries = [] then (.ok [], s)
  else
    let performance := R.sortByBlocks s.blocksPerCollatorThisSession.entries
    let ordinalRank := percentileForKick.mulCeil performance.length
    match performance[ordinalRank - 1]? with
    | none => (.trap .index, s)
    | some baseline =>
      let evictBelowBlocks := underperformanceTolerated.leftFromOne.mulCeil baseline.2
      let kicked := kick candidates evictBelowBlocks (performance.take (ordinalRank - 1)) s
      (.ok kicked.1, kicked.2)

/-- The loop that clears the map, in at most `fuel` turns. It ends where a cursor comes twice. -/
def clearLoop (limit : ℕ) : (fuel : ℕ) → (oldCursor : List UInt8) →
    (clearRes : KeyOrder R.hash ℕ × Option (List UInt8)) → KeyOrder R.hash ℕ
  | 0, _, clearRes => clearRes.1
  | fuel + 1, oldCursor, clearRes =>
    match clearRes.2 with
    | none => clearRes.1
    | some cursor =>
      let clearRes := R.clear limit (some cursor) clearRes.1
      if cursor = oldCursor then clearRes.1 else clearLoop limit fuel cursor clearRes

omit [LinearOrder Account] in
/-- The second turn is the last one, since cursors do not move. -/
theorem clearLoop_enough (limit fuel : ℕ) (m : KeyOrder R.hash ℕ) :
    clearLoop limit (fuel + 2) [] (R.clear limit none m) =
      clearLoop limit 2 [] (R.clear limit none m) := by
  cases hfirst : (R.clear limit none m).2 with
  | none => simp only [clearLoop, hfirst]
  | some cursor =>
    simp only [clearLoop, hfirst]
    by_cases hempty : cursor = []
    · rw [if_pos hempty, if_pos hempty]
    · rw [if_neg hempty, if_neg hempty]
      cases hsecond : (R.clear limit (some cursor) (R.clear limit none m).1).2 with
      | none => rfl
      | some cursor' =>
        have hsame := R.clear_cursor _ _ _ _ _ _ _ _ hsecond hfirst
        simp only [hsame, if_true]

/-- The performance map of the session that starts: its validators, at 0 blocks. -/
def State.resetCollatorPerformance (s : State R) : State R :=
  let validators := R.validators s.world
  let validatorsLen := validators.length
  let clearRes := R.clear validatorsLen none s.blocksPerCollatorThisSession
  let cleared := clearLoop validatorsLen 2 [] clearRes
  let blocks := validators.foldl (fun m v => m.insert (R.accountIdOf v) 0) cleared
  { s with blocksPerCollatorThisSession := blocks }

def newSession : Update R (List Account) := do
  let candidates ← Tx.read fun s => .ok s.candidates
  let removedCandidateIds ← evictBadCollators candidates
  let activeCandidateIds := candidates.filterMap fun c =>
    if removedCandidateIds.contains c.who then none else some c.who
  let result ← Tx.read fun s => .ok (s.assembleCollators activeCandidateIds)
  Tx.modify State.resetCollatorPerformance
  return result

end Session

/-- What a chain does: it makes calls, notes the author of a block, changes sessions, and whatever
else changes balances and session keys. -/
inductive Move (R : Runtime Account World) where
  | call (origin : Origin Account) (call : Call R)
  | noteAuthor (author : Account)
  | newSession
  | other (world : World)

def Move.next (s : State R) : Move R → State R
  | .call origin c => (c.dispatch origin s).2
  | .noteAuthor author => s.noteAuthor author
  | .newSession => (CollatorSelection.newSession s).2
  | .other world => { s with world }

end CollatorSelection
end ZkNft
