import ZkNft.CollatorSelection.Eviction
import ZkNft.Staking.Onboarding

/-! What the collator selection pallet holds reserved while its candidates come and go, some of them
to parachain staking. -/

namespace ZkNft
namespace Staking
open CollatorSelection (Returned)

variable {E : Economy} {C : CollatorSelection.Runtime E.Account E.World}

/-- Locks do not touch balances. -/
structure Economy.LocksApart (E : Economy) (C : CollatorSelection.Runtime E.Account E.World) :
    Prop where
  setLock_reserved : ∀ w id a n b,
    C.reservedBalance (E.setLock w id a n) b = C.reservedBalance w b
  setLock_free : ∀ w id a n b, C.freeBalance (E.setLock w id a n) b = C.freeBalance w b

section Joining
variable {s : State (E.runtimeOver C)} {bond candidateCount : ℕ}

theorem joinCandidates_settles (hC : C.Reserves) (hE : E.LocksApart C)
    (h : s.world.candidateIds.Nodup) (origin : Origin (E.runtimeOver C)) :
    CollatorSelection.Settles s.world (joinCandidates origin bond candidateCount s).2.world := by
  rcases joinCandidates_cases origin bond candidateCount s with
    hs | ⟨acc, candidatePool, world, hworld, -, hs⟩
  · rw [hs]
    exact .kept rfl fun _ => rfl
  · have hleft : CollatorSelection.Settles s.world world := by
      rcases hworld with rfl | hleave
      · exact .kept rfl fun _ => rfl
      · obtain ⟨c, hc, rfl, rfl⟩ := leaveIntent_eq_some hleave
        exact .returned [c.who] (.one hC h hc rfl rfl)
    rw [hs]
    exact hleft.congr rfl (hE.setLock_reserved _ _ _ _) (hE.setLock_free _ _ _ _)

end Joining

/-- The two pallets, with what the collator selection pallet holds of each account: all that its own
steps have reserved, less what they have unreserved. -/
structure Holding (C : CollatorSelection.Runtime E.Account E.World) where
  stakes : State (E.runtimeOver C)
  held : E.Account → ℤ

def Holding.collators (b : Holding C) : CollatorSelection.State C := b.stakes.world

/-- A step of the collator selection pallet, an account that joins parachain staking, or whatever
else happens. -/
inductive Step (C : CollatorSelection.Runtime E.Account E.World) where
  | call (origin : CollatorSelection.Origin E.Account) (c : CollatorSelection.Call C)
  | noteAuthor (author : E.Account)
  | newSession
  | joinCandidates (origin : Origin (E.runtimeOver C)) (bond candidateCount : ℕ)
  | other (stakes : State (E.runtimeOver C))

namespace Step

def run (s : State (E.runtimeOver C)) : Step C → State (E.runtimeOver C)
  | call origin c => { s with world := (c.dispatch origin s.world).2 }
  | noteAuthor author => { s with world := s.world.noteAuthor author }
  | newSession => { s with world := (CollatorSelection.newSession s.world).2 }
  | joinCandidates origin bond candidateCount =>
    (Staking.joinCandidates origin bond candidateCount s).2
  | other stakes => stakes

def isOther : Step C → Bool
  | other _ => true
  | _ => false

def next (b : Holding C) (m : Step C) : Holding C where
  stakes := m.run b.stakes
  held := if m.isOther then b.held else fun a =>
    b.held a + ((m.run b.stakes).world.reserved a - b.collators.reserved a)

/-- Whatever else happens leaves the storage of the pallet alone, and does not release what it
holds. -/
def Allowed (b : Holding C) : Step C → Prop
  | other stakes => stakes.world = { b.collators with world := stakes.world.world } ∧
    ∀ a, b.held a ≤ stakes.world.reserved a
  | _ => True

end Step

/-- Every account has one entry at most, and what is held of it is its deposit, which is there. -/
structure Holding.Sound (b : Holding C) : Prop where
  nodup : b.collators.candidateIds.Nodup
  held : ∀ a, b.held a = b.collators.deposit a
  backed : ∀ a, b.collators.deposit a ≤ b.collators.reserved a

namespace Step
variable {b : Holding C} {m : Step C}

/-- The pallet's own steps settle deposits. -/
theorem run_settles (hC : C.Reserves) (hE : E.LocksApart C)
    (h : b.collators.candidateIds.Nodup) (hm : m.isOther = false) :
    CollatorSelection.Settles b.collators (m.next b).collators := by
  cases m with
  | call origin c => exact CollatorSelection.Settles.dispatch hC h origin c
  | noteAuthor author => exact CollatorSelection.Settles.noteAuthor hC author
  | newSession => exact CollatorSelection.Settles.newSession hC h
  | joinCandidates origin bond candidateCount => exact joinCandidates_settles hC hE h origin
  | other stakes => cases hm

/-- What the rest does to the storage of the pallet: nothing. -/
theorem other_candidates (hm : m.Allowed b) (hother : m.isOther = true) :
    (m.next b).collators.candidates = b.collators.candidates := by
  cases m with
  | other stakes =>
    change stakes.world.candidates = b.collators.candidates
    rw [hm.1]
  | call _ _ | noteAuthor _ | newSession | joinCandidates _ _ _ => cases hother

end Step

section Runs
variable {b : Holding C} {m : Step C}

theorem Holding.Sound.next (hC : C.Reserves) (hE : E.LocksApart C) (h : b.Sound)
    (hm : m.Allowed b) : (m.next b).Sound := by
  cases hother : m.isOther with
  | false =>
    have hsettles := Step.run_settles hC hE h.nodup hother
    refine ⟨hsettles.nodup h.nodup, ?_, fun a => (hsettles.balanced h.backed a).2⟩
    intro a
    have hheld : (m.next b).held a =
        b.held a + ((m.next b).collators.reserved a - b.collators.reserved a) := by
      simp only [Step.next, hother, Bool.false_eq_true, if_false]
      rfl
    have hbalance := (hsettles.balanced h.backed a).1
    rw [hheld, h.held]
    omega
  | true =>
    have hcands := Step.other_candidates hm hother
    have hids : (m.next b).collators.candidateIds = b.collators.candidateIds :=
      congrArg (List.map CollatorSelection.CandidateInfo.who) hcands
    have hheld : (m.next b).held = b.held := by
      simp only [Step.next, hother, if_true]
    have hdeposit : ∀ a, (m.next b).collators.deposit a = b.collators.deposit a := by
      intro a
      unfold CollatorSelection.State.deposit
      rw [hcands]
    refine ⟨by rw [hids]; exact h.nodup, ?_, ?_⟩
    · intro a
      rw [hheld, hdeposit]
      exact h.held a
    · intro a
      rw [hdeposit]
      cases m with
      | other stakes =>
        have hle := hm.2 a
        rw [h.held] at hle
        exact_mod_cast hle
      | call _ _ | noteAuthor _ | newSession | joinCandidates _ _ _ => cases hother

/-- The entry is one of a new account. Its deposit is the bond in force, and was reserved. -/
def Takes (c : CollatorSelection.CandidateInfo E.Account) (s s' : CollatorSelection.State C) :
    Prop :=
  c.who ∉ s.candidateIds ∧ c.deposit = s.candidacyBond ∧
    s'.reserved c.who = s.reserved c.who + c.deposit

/-- Every account that loses its place gets the deposit of its entry back. -/
def Repays (s s' : CollatorSelection.State C) : Prop :=
  ∀ c ∈ s.candidates, c.who ∉ s'.candidateIds →
    s'.reserved c.who + c.deposit = s.reserved c.who ∧
      s'.free c.who = s.free c.who + c.deposit

theorem Step.next_repays (hC : C.Reserves) (hE : E.LocksApart C) (h : b.Sound)
    (hm : m.Allowed b) : Repays b.collators (m.next b).collators := by
  intro c hc hgone
  cases hother : m.isOther with
  | false =>
    have hsettles := Step.run_settles hC hE h.nodup hother
    exact hsettles.repays h.nodup h.backed hc hgone
  | true =>
    apply absurd _ hgone
    unfold CollatorSelection.State.candidateIds
    rw [Step.other_candidates hm hother]
    exact List.mem_map_of_mem hc

theorem Step.next_takes (hC : C.Reserves) (hE : E.LocksApart C) (h : b.Sound)
    (hm : m.Allowed b) {c : CollatorSelection.CandidateInfo E.Account}
    (hc : c ∈ (m.next b).collators.candidates) (hnew : c ∉ b.collators.candidates) :
    Takes c b.collators (m.next b).collators := by
  cases hother : m.isOther with
  | false => exact (Step.run_settles hC hE h.nodup hother).takes hc hnew
  | true =>
    rw [Step.other_candidates hm hother] at hc
    exact absurd hc hnew

variable {config : CollatorSelection.GenesisConfig C} {world : E.World}
  {stakes : State (E.runtimeOver C)} {tr : List (Holding C × Step C)}

theorem genesis_sound (h₀ : config.build world = .ok stakes.world) :
    (⟨stakes, fun _ => 0⟩ : Holding C).Sound := by
  obtain ⟨-, hcands, -⟩ := CollatorSelection.build_ok h₀
  have hids : stakes.world.candidateIds = [] :=
    congrArg (List.map CollatorSelection.CandidateInfo.who) hcands
  have hdeposit : ∀ a, stakes.world.deposit a = 0 := by
    intro a
    apply CollatorSelection.State.deposit_of_not_mem
    rw [hids]
    exact List.not_mem_nil
  refine ⟨?_, ?_, ?_⟩
  · change stakes.world.candidateIds.Nodup
    rw [hids]
    exact List.nodup_nil
  · intro a
    change (0 : ℤ) = stakes.world.deposit a
    rw [hdeposit]
    rfl
  · intro a
    change stakes.world.deposit a ≤ _
    rw [hdeposit]
    exact Nat.zero_le _

end Runs

namespace Sample

theorem selection_reserves : selection.Reserves where
  reserve_reserved w w' a n h b := by
    simp only [selection] at h
    split_ifs at h
    obtain rfl := Option.some.inj h
    by_cases hb : b = a
    · subst hb
      simp [selection]
    · simp [selection, hb]
  unreserve_reserved w a n b := by
    by_cases hb : b = a
    · subst hb
      simp [selection]
    · simp [selection, hb]
  unreserve_free w a n b := by
    by_cases hb : b = a
    · subst hb
      simp [selection]
    · simp [selection, hb]
  transfer_reserved w w' a b n h := by cases h

theorem ledger_locksApart : ledgerEconomy.LocksApart selection where
  setLock_reserved _ _ _ _ _ := rfl
  setLock_free _ _ _ _ _ := rfl

def selectionConfig : CollatorSelection.GenesisConfig selection :=
  { invulnerables := []
    candidacyBond := 5
    evictionBaseline := .fromParts _ 80
    evictionTolerance := .fromParts _ 10
    desiredCandidates := 3 }

def vacant : CollatorSelection.State selection :=
  { selected with
    candidates := []
    world := { free := fun _ => 100, reserved := fun _ => 15, locks := fun _ _ => none } }

/-- Two accounts register at different bonds. The first one leaves, the second one joins parachain
staking. -/
def comings : List (Step (E := ledgerEconomy) selection) :=
  [.call (.signed (2 : ℕ)) .registerAsCandidate, .call .root (.setCandidacyBond 7),
    .call (.signed (3 : ℕ)) .registerAsCandidate, .call (.signed (2 : ℕ)) .leaveIntent,
    .joinCandidates (.signed (3 : ℕ)) 10 0]

/-- Nothing is held yet. -/
def empty : Holding (E := ledgerEconomy) selection := ⟨State.genesis vacant, fun _ => 0⟩

end Sample

end Staking
end ZkNft
