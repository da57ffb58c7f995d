import ZkNft.Lib.LastWrite
import ZkNft.TxPause.Pallet

/-! What the filter reports after any history of operations. -/

namespace ZkNft
namespace TxPause
open Utf8 LastWrite

variable {R : Runtime} {s s' : State} {origin : R.Origin} {palletName functionName : Name}
  {key : Name × Name} {call : R.Call} {op : Operation}

/-- What the pallet may pause. -/
def Pausable (R : Runtime) (palletName : Name) : Prop :=
  ∃ name, fromBytes palletName = some name ∧ name ≠ R.name ∧
    R.nonPausablePallets palletName = false

/-- The bytes that a call is paused under. -/
def callKey (R : Runtime) (call : R.Call) : Name × Name :=
  (asBytes (R.getCallMetadata call).palletName, asBytes (R.getCallMetadata call).functionName)

def State.paused (s : State) (key : Name × Name) : Bool := s.pausedTransactions.containsKey key

namespace Operation

def isPause : Operation → Bool
  | pauseTransaction _ _ => true
  | pauseTransactions _ => true
  | pausePallets _ => true
  | unpauseTransaction _ _ => false
  | unpauseTransactions _ => false
  | unpausePallets _ => false

/-- The operation names the call, or its whole pallet. -/
def Names (key : Name × Name) : Operation → Prop
  | pauseTransaction palletName functionName => key = (palletName, functionName)
  | unpauseTransaction palletName functionName => key = (palletName, functionName)
  | pauseTransactions l => ∃ x ∈ l, ∃ functionName ∈ x.2, key = (x.1, functionName)
  | unpauseTransactions l => ∃ x ∈ l, ∃ functionName ∈ x.2, key = (x.1, functionName)
  | pausePallets l => ∃ palletName ∈ l, key.1 = palletName
  | unpausePallets l => ∃ palletName ∈ l, key.1 = palletName

instance (key : Name × Name) : ∀ op : Operation, Decidable (op.Names key)
  | pauseTransaction palletName functionName =>
    inferInstanceAs (Decidable (key = (palletName, functionName)))
  | unpauseTransaction palletName functionName =>
    inferInstanceAs (Decidable (key = (palletName, functionName)))
  | pauseTransactions l =>
    inferInstanceAs (Decidable (∃ x ∈ l, ∃ functionName ∈ x.2, key = (x.1, functionName)))
  | unpauseTransactions l =>
    inferInstanceAs (Decidable (∃ x ∈ l, ∃ functionName ∈ x.2, key = (x.1, functionName)))
  | pausePallets l => inferInstanceAs (Decidable (∃ palletName ∈ l, key.1 = palletName))
  | unpausePallets l => inferInstanceAs (Decidable (∃ palletName ∈ l, key.1 = palletName))

end Operation

section Steps
variable {event : Bool} {name : String} {names : List String} {u : PUnit}

/-- A call ends in a value if its origin is allowed and its body does. -/
theorem allowed_run_ok {allowed : R.Origin → Bool} {x : PUnit → Update} :
    Tx.transactional (ensureOrigin R allowed origin >>= x) s = (.ok u, s') ↔
      allowed origin = true ∧ x ⟨⟩ s = (.ok u, s') := by
  rw [Tx.transactional_run_ok, ensureOrigin, Tx.read_bind_ok]
  constructor
  · rintro ⟨_, horigin, hrun⟩
    exact ⟨Exec.ensure_eq_ok.mp horigin, hrun⟩
  · rintro ⟨horigin, hrun⟩
    exact ⟨⟨⟩, Exec.ensure_eq_ok.mpr horigin, hrun⟩

theorem fromUtf8_bind_ok {x : String → Update} : (fromUtf8 palletName >>= x) s = (.ok u, s') ↔
    ∃ name, fromBytes palletName = some name ∧ x name s = (.ok u, s') := by
  simp only [fromUtf8, Tx.read_bind_ok, Exec.okOr_eq_ok]

theorem getCallNames_bind_ok {x : List String → Update} :
    (getCallNames R name >>= x) s = (.ok u, s') ↔
      ∃ names, R.getCallNames name = some names ∧ x names s = (.ok u, s') := by
  simp only [getCallNames, Tx.read_bind_ok, Exec.expect_eq_ok]

theorem ensureCanPause_ok :
    ensureCanPause R palletName s = (.ok u, s') ↔ s' = s ∧ Pausable R palletName := by
  simp only [ensureCanPause, fromUtf8_bind_ok, Tx.read_bind_ok, Exec.ensure_eq_ok, Tx.read_run,
    Prod.mk.injEq, Pausable]
  constructor
  · rintro ⟨name, hname, -, hown, hpausable, rfl⟩
    exact ⟨rfl, name, hname, hown, hpausable⟩
  · rintro ⟨rfl, name, hname, hown, hpausable⟩
    exact ⟨name, hname, ⟨⟩, hown, hpausable, rfl⟩

theorem ensureCanPause_bind_ok {x : PUnit → Update} :
    (ensureCanPause R palletName >>= x) s = (.ok u, s') ↔
      Pausable R palletName ∧ x ⟨⟩ s = (.ok u, s') := by
  rw [Tx.bind_run_ok]
  constructor
  · rintro ⟨_, s₁, hcan, hrun⟩
    obtain ⟨rfl, hpausable⟩ := ensureCanPause_ok.mp hcan
    exact ⟨hpausable, hrun⟩
  · rintro ⟨hpausable, hrun⟩
    exact ⟨⟨⟩, s, ensureCanPause_ok.mpr ⟨rfl, hpausable⟩, hrun⟩

theorem pauseOne_writes (h : pauseOne palletName functionName event s = (.ok u, s'))
    (key : Name × Name) :
    s'.paused key = if key = (palletName, functionName) then true else s.paused key := by
  rw [Tx.modify_ok.mp h]
  by_cases hin : s.pausedTransactions.containsKey (palletName, functionName)
  · rw [if_pos hin]
    split_ifs with hkey
    · rw [hkey]
      exact hin
    · rfl
  · rw [if_neg hin]
    exact StorageMap.containsKey_insert_if _ _ _ _

theorem unpauseOne_writes (h : unpauseOne palletName functionName s = (.ok u, s'))
    (key : Name × Name) :
    s'.paused key = if key = (palletName, functionName) then false else s.paused key := by
  rw [Tx.modify_ok.mp h]
  by_cases hin : s.pausedTransactions.containsKey (palletName, functionName)
  · rw [if_pos hin]
    exact StorageMap.containsKey_remove_if _ _ _
  · rw [if_neg hin]
    split_ifs with hkey
    · rw [hkey]
      exact eq_false_of_ne_true hin
    · rfl

theorem take_writes (h : take palletName functionName s = (.ok u, s')) (key : Name × Name) :
    s'.paused key = if key = (palletName, functionName) then false else s.paused key := by
  rw [Tx.modify_ok.mp h]
  exact StorageMap.containsKey_remove_if _ _ _

/-- A listed pallet name covers the calls of that pallet, and no others. -/
theorem mem_callNames_iff (hR : R.ListsCalls) (hname : fromBytes palletName = some name)
    (hnames : R.getCallNames name = some names) (call : R.Call) :
    (∃ callName ∈ names, callKey R call = (palletName, asBytes callName)) ↔
      (callKey R call).1 = palletName := by
  constructor
  · rintro ⟨callName, -, hkey⟩
    rw [hkey]
  · intro hpallet
    obtain ⟨names', hnames', hmem⟩ :=
      (hR (R.getCallMetadata call).palletName (R.getCallMetadata call).functionName).mp ⟨call, rfl⟩
    have hself : fromBytes palletName = some (R.getCallMetadata call).palletName :=
      fromBytes_eq_some.mpr hpallet
    obtain rfl := Option.some.inj (hname.symm.trans hself)
    obtain rfl := Option.some.inj (hnames.symm.trans hnames')
    exact ⟨_, hmem, Prod.ext hpallet rfl⟩

/-- A loop over the call names of a pallet writes all its calls. -/
theorem forM_callNames_writes {f : String → Update} {v : Bool} (hR : R.ListsCalls)
    (hname : fromBytes palletName = some name) (hnames : R.getCallNames name = some names)
    (hf : ∀ callName t t', f callName t = (.ok ⟨⟩, t') → ∀ key,
      t'.paused key = if key = (palletName, asBytes callName) then v else t.paused key)
    (h : names.forM f s = (.ok ⟨⟩, s')) (call : R.Call) :
    s'.paused (callKey R call) =
      if (callKey R call).1 = palletName then v else s.paused (callKey R call) := by
  have hwrites := Tx.forM_writes (State.paused · (callKey R call))
    (fun callName _ t t' ht => hf callName t t' ht _) h
  simp only [mem_callNames_iff hR hname hnames call] at hwrites
  exact hwrites

end Steps

/-- A successful operation pauses or unpauses the calls that it names, and no others. -/
theorem Operation.dispatch_paused (hR : R.ListsCalls)
    (h : op.dispatch R origin s = (.ok ⟨⟩, s')) (call : R.Call) :
    s'.paused (callKey R call) =
      if op.Names (callKey R call) then op.isPause else s.paused (callKey R call) := by
  cases op with
  | pauseTransaction palletName functionName =>
    have ⟨_, hrun⟩ := allowed_run_ok.mp h
    exact pauseOne_writes (ensureCanPause_bind_ok.mp hrun).2 _
  | unpauseTransaction palletName functionName =>
    exact unpauseOne_writes (allowed_run_ok.mp h).2 _
  | pauseTransactions l =>
    refine Tx.forM_writes (State.paused · (callKey R call)) ?_ (allowed_run_ok.mp h).2
    intro x _ t t' ht
    exact Tx.forM_writes (State.paused · (callKey R call)) (fun _ _ _ _ h => pauseOne_writes h _)
      (ensureCanPause_bind_ok.mp ht).2
  | unpauseTransactions l =>
    refine Tx.forM_writes (State.paused · (callKey R call)) ?_ (allowed_run_ok.mp h).2
    intro x _ t t' ht
    exact Tx.forM_writes (State.paused · (callKey R call)) (fun _ _ _ _ h => unpauseOne_writes h _)
      ht
  | pausePallets l =>
    refine Tx.forM_writes (State.paused · (callKey R call)) ?_ (allowed_run_ok.mp h).2
    intro palletName _ t t' ht
    obtain ⟨name, hname, hnames⟩ := fromUtf8_bind_ok.mp (ensureCanPause_bind_ok.mp ht).2
    obtain ⟨names, hnames, hrun⟩ := getCallNames_bind_ok.mp hnames
    obtain ⟨_, -, hrun⟩ := Tx.read_bind_ok.mp hrun
    obtain ⟨_, t₁, hrun, hevent⟩ := Tx.bind_run_ok.mp hrun
    rw [Tx.modify_ok.mp hevent]
    exact forM_callNames_writes hR hname hnames (fun _ _ _ h => pauseOne_writes h) hrun call
  | unpausePallets l =>
    refine Tx.forM_writes (State.paused · (callKey R call)) ?_ (allowed_run_ok.mp h).2
    intro palletName _ t t' ht
    obtain ⟨name, hname, hnames⟩ := fromUtf8_bind_ok.mp ht
    obtain ⟨names, hnames, hrun⟩ := getCallNames_bind_ok.mp hnames
    obtain ⟨_, t₁, hrun, hevent⟩ := Tx.bind_run_ok.mp hrun
    rw [Tx.modify_ok.mp hevent]
    exact forM_callNames_writes hR hname hnames (fun _ _ _ h => take_writes h) hrun call

/-- A successful pause is one of a pallet that may be paused. -/
theorem Operation.dispatch_pausable (h : op.dispatch R origin s = (.ok ⟨⟩, s'))
    (hpause : op.isPause = true) (hnames : op.Names key) : Pausable R key.1 := by
  cases op with
  | pauseTransaction palletName functionName =>
    have ⟨_, hrun⟩ := allowed_run_ok.mp h
    rw [show key = (palletName, functionName) from hnames]
    exact (ensureCanPause_bind_ok.mp hrun).1
  | pauseTransactions l =>
    obtain ⟨x, hx, functionName, -, rfl⟩ := hnames
    obtain ⟨s₁, s₂, hone⟩ := Tx.forM_each (allowed_run_ok.mp h).2 hx
    exact (ensureCanPause_bind_ok.mp hone).1
  | pausePallets l =>
    obtain ⟨palletName, hin, hkey⟩ := hnames
    obtain ⟨s₁, s₂, hone⟩ := Tx.forM_each (allowed_run_ok.mp h).2 hin
    rw [hkey]
    exact (ensureCanPause_bind_ok.mp hone).1
  | unpauseTransaction _ _ | unpauseTransactions _ | unpausePallets _ => cases hpause

/-- An operation that does not succeed changes nothing, wherever it fails. -/
theorem Operation.dispatch_failed (h : (op.dispatch R origin s).1 ≠ .ok ⟨⟩) :
    (op.dispatch R origin s).2 = s := by
  cases op <;> exact Tx.transactional_rollback fun _ => h

/-- An operation with its origin. -/
abbrev Move (R : Runtime) := R.Origin × Operation

namespace Move

def next (s : State) (m : Move R) : State := (m.2.dispatch R m.1 s).2

def Succeeds (s : State) (m : Move R) : Prop := (m.2.dispatch R m.1 s).1 = .ok ⟨⟩

instance (s : State) (m : Move R) : Decidable (m.Succeeds s) :=
  inferInstanceAs (Decidable (_ = _))

/-- What an operation decides about a call: it is paused, or not, if the operation succeeds and
names the call or its whole pallet. -/
def verdict (call : R.Call) (s : State) (m : Move R) : Option Bool :=
  if m.Succeeds s ∧ m.2.Names (callKey R call) then some m.2.isPause else none

theorem next_paused (hR : R.ListsCalls) (call : R.Call) (s : State) (m : Move R) :
    (m.next s).paused (callKey R call) =
      (m.verdict call s).getD (s.paused (callKey R call)) := by
  unfold verdict
  by_cases hok : m.Succeeds s
  · rw [next, Operation.dispatch_paused hR (Tx.run_of_fst hok) call]
    simp only [hok, true_and]
    split_ifs <;> rfl
  · rw [next, Operation.dispatch_failed hok, if_neg fun h => hok h.1, Option.getD_none]

theorem pausable_of_verdict {m : Move R} (h : m.verdict call s = some true) :
    Pausable R (callKey R call).1 := by
  unfold verdict at h
  split_ifs at h with hnames
  exact Operation.dispatch_pausable (Tx.run_of_fst hnames.1) (Option.some.inj h) hnames.2

end Move

/-- The pallet's own calls and those of `NonPausablePallets` are not pausable. -/
theorem not_pausable (h : (R.getCallMetadata call).palletName = R.name ∨
    R.nonPausablePallets (asBytes (R.getCallMetadata call).palletName) = true) :
    ¬ Pausable R (callKey R call).1 := by
  rintro ⟨name, hname, hown, hpausable⟩
  rcases h with h | h
  · have hself := fromBytes_eq_some.mpr (rfl : asBytes _ = (callKey R call).1)
    exact hown ((Option.some.inj (hname.symm.trans hself)).trans h)
  · rw [callKey, h] at hpausable
    cases hpausable

/-- After any history, a call is paused exactly if the last operation that succeeded and named it or
its pallet was a pause. What fails changes nothing, and the calls that may not be paused never
are. -/
theorem filter_reflects_last (hR : R.ListsCalls) {tr : List (State × Move R)}
    (h : Run Move.next (fun _ _ => True) .empty tr s) :
    (∀ call, PausedTransactionFilter.contains R s call = true ↔
      lastWrite (Move.verdict call) tr = some true) ∧
    (∀ x ∈ tr, ¬ x.2.Succeeds x.1 → x.2.next x.1 = x.1) ∧
    ∀ call, (R.getCallMetadata call).palletName = R.name ∨
      R.nonPausablePallets (asBytes (R.getCallMetadata call).palletName) = true →
        PausedTransactionFilter.contains R s call = false := by
  have hlast : ∀ call, PausedTransactionFilter.contains R s call = true ↔
      lastWrite (Move.verdict call) tr = some true := by
    intro call
    have hregister := observe_eq (State.paused · (callKey R call)) h
      fun s m _ => Move.next_paused hR call s m
    change s.paused (callKey R call) = true ↔ _
    rw [hregister]
    cases lastWrite (Move.verdict call) tr with
    | none => exact iff_of_false Bool.false_ne_true (fun h => by cases h)
    | some paused => exact Option.some_inj.symm
  refine ⟨hlast, fun x _ hfailed => Operation.dispatch_failed hfailed, ?_⟩
  intro call hcall
  apply eq_false_of_ne_true
  intro hpaused
  obtain ⟨x, -, hx⟩ := exists_of_lastWrite ((hlast call).mp hpaused)
  exact not_pausable hcall (Move.pausable_of_verdict hx)

section Sample

/-- The calls of a small runtime. -/
inductive SampleCall where
  | transfer
  | setBalance
  | pauseTransaction
  | setCode

def sampleCallNames (palletName : String) : Option (List String) :=
  if palletName = "Balances" then some ["transfer", "set_balance"]
  else if palletName = "TransactionPause" then some ["pause_transaction"]
  else if palletName = "System" then some ["set_code"]
  else none

/-- A runtime in which anyone may pause, but not the system pallet. -/
def sample : Runtime where
  Origin := Unit
  Call := SampleCall
  getCallMetadata
    | .transfer => ⟨"transfer", "Balances"⟩
    | .setBalance => ⟨"set_balance", "Balances"⟩
    | .pauseTransaction => ⟨"pause_transaction", "TransactionPause"⟩
    | .setCode => ⟨"set_code", "System"⟩
  getCallNames := sampleCallNames
  maxCallNames := 10
  pauseOrigin _ := true
  unpauseOrigin _ := true
  nonPausablePallets palletName := decide (palletName = asBytes "System")
  name := "TransactionPause"

theorem sample_listsCalls : sample.ListsCalls := by
  intro palletName functionName
  constructor
  · rintro ⟨call, hcall⟩
    cases call <;> cases hcall <;> exact ⟨_, rfl, by simp⟩
  · rintro ⟨names, hnames, hmem⟩
    change sampleCallNames palletName = some names at hnames
    unfold sampleCallNames at hnames
    split_ifs at hnames with h h h <;> subst h <;> cases hnames
    · rcases List.mem_pair.mp hmem with rfl | rfl
      · exact ⟨SampleCall.transfer, rfl⟩
      · exact ⟨SampleCall.setBalance, rfl⟩
    · obtain rfl := List.mem_singleton.mp hmem
      exact ⟨SampleCall.pauseTransaction, rfl⟩
    · obtain rfl := List.mem_singleton.mp hmem
      exact ⟨SampleCall.setCode, rfl⟩

/-- A pallet is paused, then one of its calls is let through; a list fails at its second entry. -/
def sampleMoves : List (Move sample) :=
  [((), .pausePallets [asBytes "Balances"]),
    ((), .unpauseTransaction (asBytes "Balances") (asBytes "transfer")),
    ((), .pauseTransactions [(asBytes "Balances", [asBytes "transfer"]),
      (asBytes "System", [asBytes "set_code"])])]

theorem filter_reflects_last_sample :
    let tr := trace Move.next .empty sampleMoves
    let s := sampleMoves.foldl Move.next .empty
    (∀ call, PausedTransactionFilter.contains sample s call = true ↔
      lastWrite (Move.verdict call) tr = some true) ∧
    (∀ x ∈ tr, ¬ x.2.Succeeds x.1 → x.2.next x.1 = x.1) ∧
    ∀ call, (sample.getCallMetadata call).palletName = sample.name ∨
      sample.nonPausablePallets (asBytes (sample.getCallMetadata call).palletName) = true →
        PausedTransactionFilter.contains sample s call = false :=
  filter_reflects_last sample_listsCalls (Run.play fun _ _ => trivial)

end Sample

end TxPause
end ZkNft
