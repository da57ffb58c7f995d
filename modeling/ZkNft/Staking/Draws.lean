import ZkNft.Staking.Panics

/-! The collators that a block draws: who is drawn of the authors of a round depends on how many
blocks the round that pays them has. -/

namespace ZkNft
namespace Staking
open StorageMap

variable {E : Economy}

namespace Storage

/-- What was noticed of the payout for round `r`, in order. -/
def noticesOf (s : Storage E) (r : ℕ) : List (Notice E.Account) :=
  s.notices.filter fun x => x.round = r

/-- The collators drawn for round `r`. -/
def drawn (s : Storage E) (r : ℕ) : List E.Account := (s.noticesOf r).filterMap Notice.payee

/-- Who has been awarded points in round `r`: who was drawn, and who is still to be. -/
def awardees (s : Storage E) (r : ℕ) : List E.Account :=
  s.drawn r ++ (s.awardedPts r).map Prod.fst

/-- Nothing is done about round `r`. -/
structure SameFor (r : ℕ) (s s' : Storage E) : Prop where
  awarded : s'.awardedPts r = s.awardedPts r
  notices : s'.noticesOf r = s.noticesOf r
  payout : s'.delayedPayouts.get r = s.delayedPayouts.get r
  points : s'.points.get r = s.points.get r

section SameFor
variable {s s₁ s' : Storage E} {r p now : ℕ}

theorem SameFor.refl (r : ℕ) (s : Storage E) : SameFor r s s := ⟨rfl, rfl, rfl, rfl⟩

theorem SameFor.trans (h : SameFor r s s₁) (h' : SameFor r s₁ s') : SameFor r s s' :=
  ⟨h'.awarded.trans h.awarded, h'.notices.trans h.notices, h'.payout.trans h.payout,
    h'.points.trans h.points⟩

theorem SameFor.drawn (h : SameFor r s s') : s'.drawn r = s.drawn r := by
  unfold Storage.drawn
  rw [h.notices]

/-- New notices are of round `r`. -/
theorem noticesOf_append {new : List (Notice E.Account)} (h : s'.notices = s.notices ++ new)
    (hround : ∀ x ∈ new, x.round = r) : s'.noticesOf r = s.noticesOf r ++ new := by
  have hnew : (new.filter fun x => x.round = r) = new :=
    List.filter_eq_self.mpr fun x hx => decide_eq_true (hround x hx)
  unfold noticesOf
  rw [h, List.filter_append, hnew]

/-- The payout of another round. -/
theorem PayoutStep.sameFor (h : PayoutStep p s s') (hr : r ≠ p) : SameFor r s s' := by
  refine ⟨h.awarded r hr, ?_, h.payouts r hr, h.points r hr⟩
  obtain ⟨new, hnew, hround⟩ := h.notices
  have hnil : (new.filter fun x => x.round = r) = [] := by
    apply List.filter_eq_nil_iff.mpr
    intro x hx
    rw [hround x hx]
    simpa using Ne.symm hr
  unfold noticesOf
  rw [hnew, List.filter_append, hnil, List.append_nil]

theorem handleDelayedPayouts_sameFor (h : now ≠ r + E.rewardPaymentDelay) :
    SameFor r s (s.handleDelayedPayouts now) := by
  rcases s.handleDelayedPayouts_cases now with ⟨-, hs⟩ | ⟨p, hp, hs⟩
  · rw [hs]
    exact .refl r s
  · exact hs.step.sameFor (by omega)

theorem prepareStakingPayouts_sameFor (h : now ≠ r + E.rewardPaymentDelay) :
    SameFor r s (s.prepareStakingPayouts now) := by
  rcases s.prepareStakingPayouts_cases now with ⟨-, hs⟩ | ⟨p, hp, -, hs⟩
  · rw [hs]
    exact .refl r s
  · exact hs.step.sameFor (by omega)

/-- The selection of collators has nothing to do with payouts. -/
theorem selectTopCandidates_sameFor (h : s.selectTopCandidates now = .ok s') : SameFor r s s' := by
  obtain ⟨atStake, selected, rfl⟩ := (selectTopCandidates_ok h).same
  exact ⟨rfl, rfl, rfl, rfl⟩

/-- Nor has the beginning of a round, once its payout is prepared. -/
theorem begun_sameFor (h : s.selectTopCandidates now = .ok s') (round : RoundInfo)
    (staked : StorageMap ℕ ℕ) : SameFor r s { s' with round, staked } :=
  (selectTopCandidates_sameFor h).trans ⟨rfl, rfl, rfl, rfl⟩

theorem handleDelayedPayouts_round : (s.handleDelayedPayouts now).round = s.round := by
  rcases s.handleDelayedPayouts_cases now with ⟨-, hs⟩ | ⟨p, -, hs⟩
  · rw [hs]
  · obtain ⟨w, -, hstakes⟩ := hs.step.stakes
    rw [hstakes]

theorem handled_of_eq (h : now = r + E.rewardPaymentDelay) :
    Handled s r (s.handleDelayedPayouts now) := by
  rcases s.handleDelayedPayouts_cases now with ⟨hlt, -⟩ | ⟨p, hp, hs⟩
  · omega
  · obtain rfl : p = r := by omega
    exact hs

theorem prepared_of_eq (h : now = r + E.rewardPaymentDelay) (hr : 0 < r) :
    Prepared s r (s.prepareStakingPayouts now) := by
  rcases s.prepareStakingPayouts_cases now with ⟨hle, -⟩ | ⟨p, hp, -, hs⟩
  · omega
  · obtain rfl : p = r := by omega
    exact hs

/-- What the hook of a block does about round `r`. -/
inductive OpenedFor (r : ℕ) (s : Storage E) : Storage E → Prop where
  | other {s' : Storage E} (h : SameFor r s s')
    (hround : s'.round.current = s.round.current ∨ s'.round.current = s.round.current + 1)
    (hne : s'.round.current ≠ r + E.rewardPaymentDelay) : OpenedFor r s s'
  | goesOn {s' : Storage E} (h : Handled s r s')
    (hround : s'.round.current = s.round.current)
    (hdue : s.round.current = r + E.rewardPaymentDelay) : OpenedFor r s s'
  | begins {s₁ s₂ s' : Storage E} (h₁ : Prepared s r s₁) (h₂ : SameFor r s₁ s₂)
    (h₃ : Handled s₂ r s') (hround : s'.round.current = s.round.current + 1)
    (hdue : s.round.current + 1 = r + E.rewardPaymentDelay) : OpenedFor r s s'

theorem Opened.openedFor {n : ℕ} (h : Opened s n s') (hr : 0 < r) : OpenedFor r s s' := by
  cases h with
  | same =>
    have hround : (s.handleDelayedPayouts s.round.current).round.current = s.round.current :=
      congrArg RoundInfo.current handleDelayedPayouts_round
    by_cases hdue : s.round.current = r + E.rewardPaymentDelay
    · exact .goesOn (handled_of_eq hdue) hround hdue
    · exact .other (handleDelayedPayouts_sameFor hdue) (.inl hround) (by rw [hround]; exact hdue)
  | @begins s₁ _ hselect =>
    have hround : (Storage.handleDelayedPayouts { s₁ with
        round := s.round.update n
        staked := s₁.staked.insert (s.round.current + 1) s₁.total }
        (s.round.current + 1)).round.current = s.round.current + 1 :=
      congrArg RoundInfo.current handleDelayedPayouts_round
    by_cases hdue : s.round.current + 1 = r + E.rewardPaymentDelay
    · exact .begins (prepared_of_eq hdue hr) (begun_sameFor hselect _ _) (handled_of_eq hdue)
        hround hdue
    · exact .other (((prepareStakingPayouts_sameFor hdue).trans (begun_sameFor hselect _ _)).trans
        (handleDelayedPayouts_sameFor hdue)) (.inr hround) (by rw [hround]; exact hdue)

theorem Payment.payees {c : E.Account} {new : List (Notice E.Account)} (h : Payment r c new) :
    new.filterMap Notice.payee = [c] := by
  have hrewards : ∀ {l : List (Notice E.Account)}, Rewards r l → l.filterMap Notice.payee = [] := by
    intro l hl
    apply List.filterMap_eq_nil_iff.mpr
    intro x hx
    obtain ⟨a, k, rfl⟩ := hl x hx
    rfl
  obtain ⟨n, before, after, rfl, hbefore, hafter⟩ := h
  rw [List.filterMap_append, List.filterMap_cons, hrewards hbefore, hrewards hafter]
  rfl

end SameFor

/-- The payments of round `r`, which may be due, when the accounts `l` were awarded points in it and
`blocks` blocks have paid it: each of them drew a collator, and one more cleaned up. -/
structure Drawing (r : ℕ) (l : List E.Account) (blocks : ℕ) (due : Prop) (s : Storage E) :
    Prop where
  awardees : s.awardees r = l
  length : (s.drawn r).length = min blocks l.length
  points : max 1 blocks ≤ l.length → (s.points.get r).getD 0 ≠ 0
  cleaned : l.length < max 1 blocks → s.points.get r = none
  payout : (s.delayedPayouts.get r).isSome ↔ due ∧ max 1 blocks ≤ l.length

namespace Drawing
variable {s s' : Storage E} {r blocks : ℕ} {l : List E.Account} {due : Prop}

/-- Nobody has been awarded points. -/
theorem nobody (hnotices : s.notices = []) (hawarded : s.awardedPts r = [])
    (hpayouts : s.delayedPayouts.get r = none) (hpoints : s.points.get r = none) :
    Drawing r [] 0 due s := by
  have hdrawn : s.drawn r = [] := by
    unfold drawn noticesOf
    rw [hnotices]
    rfl
  constructor
  · unfold Storage.awardees
    rw [hdrawn, hawarded]
    rfl
  · rw [hdrawn]
    rfl
  · intro h
    simp at h
  · exact fun _ => hpoints
  · simp [hpayouts]

theorem sameFor (hs : Drawing r l blocks due s) (h : SameFor r s s') :
    Drawing r l blocks due s' := by
  constructor
  · unfold Storage.awardees
    rw [h.drawn, h.awarded]
    exact hs.awardees
  · rw [h.drawn]
    exact hs.length
  · rw [h.points]
    exact hs.points
  · rw [h.points]
    exact hs.cleaned
  · rw [h.payout]
    exact hs.payout

/-- Who is still to be drawn. -/
theorem length_awarded (hs : Drawing r l blocks due s) :
    (s.awardedPts r).length = l.length - blocks := by
  have hlength := hs.length
  have hall : l.length = (s.drawn r).length + (s.awardedPts r).length := by
    rw [← hs.awardees, Storage.awardees, List.length_append, List.length_map]
  omega

/-- The first of those who are still to be drawn moves to the end of those who were. -/
theorem draw_awardees {c : E.Account} {pts : ℕ} {rest : List (E.Account × ℕ)} {w : E.World}
    {new : List (Notice E.Account)} (hfirst : s.awardedPts r = (c, pts) :: rest)
    (hnew : Payment r c new) :
    (((s.drain r rest).takeSnapshot r c).paid w new).drawn r = s.drawn r ++ [c] ∧
    (((s.drain r rest).takeSnapshot r c).paid w new).awardees r = s.awardees r := by
  have hdrawn : (((s.drain r rest).takeSnapshot r c).paid w new).drawn r = s.drawn r ++ [c] := by
    unfold drawn
    rw [noticesOf_append (s := s) rfl hnew.round, List.filterMap_append, hnew.payees]
  refine ⟨hdrawn, ?_⟩
  have hkeys : (((s.drain r rest).takeSnapshot r c).paid w new).awardedPts r = rest := if_pos rfl
  unfold Storage.awardees
  rw [hdrawn, hkeys, hfirst, List.map_cons, List.append_assoc]
  rfl

/-- One more block of the round that pays. -/
theorem handled (hs : Drawing r l blocks True s) (h : Handled s r s') :
    Drawing r l (blocks + 1) True s' := by
  have hlength := hs.length
  have hpayout := hs.payout
  have hrest := hs.length_awarded
  cases h with
  | idle hnone =>
    -- all was paid and cleaned up before
    have hover : l.length < max 1 blocks := by
      simp only [hnone, Option.isSome_none, Bool.false_eq_true, true_and, false_iff] at hpayout
      omega
    refine ⟨hs.awardees, by omega, fun h => by omega, fun _ => hs.cleaned hover, ?_⟩
    rw [hpayout]
    omega
  | clean hsome hdone =>
    have hopen : max 1 blocks ≤ l.length := (hpayout.mp (by rw [hsome]; rfl)).2
    have hnil := hdone.resolve_left (hs.points hopen)
    rw [hnil, List.length_nil] at hrest
    refine ⟨hs.awardees, ?_, fun h => by omega, fun _ => get_remove_self _ _, ?_⟩
    · show (s.drawn r).length = _
      omega
    · show ((s.delayedPayouts.remove r).get r).isSome ↔ _
      rw [get_remove_self]
      simp only [Option.isSome_none, Bool.false_eq_true, true_and, false_iff]
      omega
  | @draw payout c pts rest hsome hpoints hfirst =>
    obtain ⟨w, new, hpay, -, hnew⟩ :=
      payCollator_paid (r := r) (c := c) (s.drain r rest) payout ((s.points.get r).getD 0) pts
    have ⟨hdrawn, hawardees⟩ := draw_awardees (w := w) hfirst hnew
    rw [hfirst, List.length_cons] at hrest
    rw [hpay]
    refine ⟨hawardees.trans hs.awardees, ?_, fun _ => hpoints, fun h => by omega, ?_⟩
    · rw [hdrawn, List.length_append, List.length_singleton]
      omega
    · show (s.delayedPayouts.get r).isSome ↔ _
      rw [hsome]
      simp only [Option.isSome_some, true_and, true_iff]
      omega

/-- Before the round that pays, nobody was drawn. -/
theorem drawn_nil (hs : Drawing r l 0 due s) : s.drawn r = [] := by
  have hlength := hs.length
  exact List.length_eq_zero_iff.mp (by omega)

/-- A payout is prepared if somebody was awarded points. -/
theorem prepared (hs : Drawing r l 0 False s) (h : Prepared s r s') : Drawing r l 0 True s' := by
  have hlength : 0 < l.length ∨ s.points.get r = none := by
    by_cases hlength : 0 < l.length
    · exact .inl hlength
    · exact .inr (hs.cleaned (by omega))
  have hprepared : (s.points.get r).getD 0 ≠ 0 → 1 ≤ l.length := by
    intro hpoints
    apply hlength.resolve_right
    intro hnone
    rw [hnone] at hpoints
    exact hpoints rfl
  cases h with
  | idle hzero =>
    have hnone : ¬ max 1 0 ≤ l.length := fun h => hs.points h hzero
    refine ⟨hs.awardees, hs.length, hs.points, hs.cleaned, ?_⟩
    rw [hs.payout]
    tauto
  | whole hpoints =>
    refine ⟨hs.awardees, hs.length, hs.points, hs.cleaned, ?_⟩
    show ((s.delayedPayouts.insert r _).get r).isSome ↔ _
    rw [get_insert_self]
    simpa using hprepared hpoints
  | @reserved k w hpoints hdeposit =>
    have hdrawn : (s.paid w [.reservedForParachainBond r s.parachainBondInfo.account k]).drawn r =
        s.drawn r := by
      unfold drawn
      rw [noticesOf_append (s := s) rfl (by simp [Notice.round]), List.filterMap_append]
      exact List.append_nil _
    refine ⟨?_, ?_, hs.points, hs.cleaned, ?_⟩
    · exact (congrArg (· ++ (s.awardedPts r).map Prod.fst) hdrawn).trans hs.awardees
    · exact (congrArg List.length hdrawn).trans hs.length
    · show ((s.delayedPayouts.insert r _).get r).isSome ↔ _
      rw [get_insert_self]
      simpa using hprepared hpoints

end Drawing

section Award
variable {s : Storage E} {a : E.Account} {entries : List (E.Account × ℕ)} {score : ℕ}

theorem insertAwarded_perm : ((insertAwarded entries a score).map Prod.fst).Perm
    (a :: (entries.map Prod.fst).filter fun c => c ≠ a) := by
  have hfilter : (entries.map Prod.fst).filter (fun c => c ≠ a) =
      (entries.filter fun x => x.1 ≠ a).map Prod.fst := List.filter_map
  rw [hfilter]
  exact (List.perm_orderedInsert _ _ _).map Prod.fst

/-- An author is awarded points for the first time, or once more. -/
theorem Drawing.award {l : List E.Account} (hl : l.Nodup)
    (hs : Drawing s.round.current l 0 False s) : ∃ l', l'.Nodup ∧ (∀ c, c ∈ l' ↔ c ∈ l ∨ c = a) ∧
      Drawing s.round.current l' 0 False (s.awardPointsToBlockAuthor a) := by
  have hkeys : (s.awardedPts s.round.current).map Prod.fst = l := by
    rw [← hs.awardees, Storage.awardees, hs.drawn_nil, List.nil_append]
  have hdrawn : (s.awardPointsToBlockAuthor a).drawn s.round.current = [] := hs.drawn_nil
  have hperm : ((s.awardPointsToBlockAuthor a).awardees s.round.current).Perm
      (a :: l.filter fun c => c ≠ a) := by
    unfold Storage.awardees
    rw [hdrawn, List.nil_append, ← hkeys]
    unfold awardPointsToBlockAuthor
    dsimp only
    rw [if_pos rfl]
    exact insertAwarded_perm
  have hlength := hperm.length_eq
  rw [List.length_cons] at hlength
  refine ⟨(s.awardPointsToBlockAuthor a).awardees s.round.current, ?_, ?_, rfl, ?_, ?_, ?_, ?_⟩
  · apply hperm.nodup_iff.mpr
    apply List.nodup_cons.mpr
    exact ⟨by simp, hl.filter _⟩
  · intro c
    rw [hperm.mem_iff, List.mem_cons, List.mem_filter]
    by_cases hc : c = a
    · simp [hc]
    · simp [hc]
  · rw [hdrawn]
    exact (Nat.zero_min _).symm
  · intro _
    show ((s.points.insert s.round.current _).get s.round.current).getD 0 ≠ 0
    rw [get_insert_self, Option.getD_some]
    unfold maxPoints
    omega
  · intro h
    omega
  · show (s.delayedPayouts.get s.round.current).isSome ↔ _
    rw [hs.payout, false_and, false_and]

theorem awardPointsToBlockAuthor_sameFor {r : ℕ} (h : s.round.current ≠ r) :
    SameFor r s (s.awardPointsToBlockAuthor a) :=
  ⟨if_neg (Ne.symm h), rfl, rfl, get_insert_of_ne _ _ (Ne.symm h)⟩

end Award
end Storage

/-- The author of a block that is closed in round `r`. -/
def Turn.authorIn (r : ℕ) (s : Storage E) : Turn E → Option E.Account
  | .closeBlock author => if s.round.current = r then some author else none
  | _ => none

/-- A block of round `r` is opened. -/
def Turn.opens (r : ℕ) (s : Storage E) : Turn E → Bool
  | .openBlock n =>
    match s.onInitialize n with
    | .ok s' => s'.round.current = r
    | _ => false
  | _ => false

/-- The authors of the blocks of round `r`, who are awarded points. -/
def authors (r : ℕ) (tr : List (Storage E × Turn E)) : List E.Account :=
  tr.filterMap fun x => x.2.authorIn r x.1

/-- The number of blocks of round `r`. -/
def blocksOf (r : ℕ) (tr : List (Storage E × Turn E)) : ℕ := tr.countP fun x => x.2.opens r x.1

open Storage

section Runs
variable {s s' s₀ : Storage E} {tr : List (Storage E × Turn E)} {r : ℕ} {t : Turn E}

theorem authors_snoc : authors r (tr ++ [(s, t)]) = authors r tr ++ (t.authorIn r s).toList := by
  unfold authors
  rw [List.filterMap_append]
  cases h : t.authorIn r s with
  | none => simp [h]
  | some a => simp [h]

theorem blocksOf_snoc : blocksOf r (tr ++ [(s, t)]) =
    blocksOf r tr + if t.opens r s then 1 else 0 := by
  unfold blocksOf
  rw [List.countP_append, List.countP_singleton]

/-- What a run has done about round `r`. -/
structure Paying (r : ℕ) (tr : List (Storage E × Turn E)) (s : Storage E) : Prop where
  drawing : ∃ l, l.Nodup ∧ (∀ a, a ∈ l ↔ a ∈ authors r tr) ∧
    Drawing r l (blocksOf (r + E.rewardPaymentDelay) tr)
      (r + E.rewardPaymentDelay ≤ s.round.current) s
  begun : r + E.rewardPaymentDelay ≤ s.round.current ↔ 0 < blocksOf (r + E.rewardPaymentDelay) tr

namespace Paying

/-- A turn that neither opens a block of the round that pays nor awards points in round `r`. -/
theorem sameFor (hs : Paying r tr s) (hauthor : t.authorIn r s = none)
    (hopens : t.opens (r + E.rewardPaymentDelay) s = false) (h : SameFor r s s')
    (hround : r + E.rewardPaymentDelay ≤ s'.round.current ↔
      r + E.rewardPaymentDelay ≤ s.round.current) : Paying r (tr ++ [(s, t)]) s' := by
  obtain ⟨l, hl, hmem, hdrawing⟩ := hs.drawing
  have hblocks : blocksOf (r + E.rewardPaymentDelay) (tr ++ [(s, t)]) =
      blocksOf (r + E.rewardPaymentDelay) tr := by
    rw [blocksOf_snoc, hopens]
    rfl
  have hauthors : authors r (tr ++ [(s, t)]) = authors r tr := by
    rw [authors_snoc, hauthor]
    exact List.append_nil _
  constructor
  · refine ⟨l, hl, ?_, ?_⟩
    · rw [hauthors]
      exact hmem
    · rw [hblocks, hround]
      exact hdrawing.sameFor h
  · rw [hblocks, hround]
    exact hs.begun

theorem award (hdelay : 1 ≤ E.rewardPaymentDelay) (hs : Paying r tr s) (a : E.Account) :
    Paying r (tr ++ [(s, .closeBlock a)]) (s.awardPointsToBlockAuthor a) := by
  by_cases hr : s.round.current = r
  · subst hr
    obtain ⟨l, hl, hmem, hdrawing⟩ := hs.drawing
    have hbegun := hs.begun
    have hnone : blocksOf (s.round.current + E.rewardPaymentDelay) tr = 0 := by omega
    have hdue : (s.round.current + E.rewardPaymentDelay ≤ s.round.current) = False :=
      eq_false (by omega)
    have hauthor : (Turn.closeBlock a).authorIn s.round.current s = some a := if_pos rfl
    have hblocks : blocksOf (s.round.current + E.rewardPaymentDelay)
        (tr ++ [(s, .closeBlock a)]) = 0 := by
      rw [blocksOf_snoc, hnone]
      rfl
    rw [hnone, hdue] at hdrawing
    obtain ⟨l', hl', hmem', hdrawing'⟩ := hdrawing.award (a := a) hl
    constructor
    · refine ⟨l', hl', ?_, ?_⟩
      · intro c
        rw [hmem', hmem, authors_snoc, hauthor]
        simp
      · rw [hblocks]
        exact hdue ▸ hdrawing'
    · rw [hblocks]
      show _ ≤ s.round.current ↔ _
      omega
  · have hauthor : (Turn.closeBlock a).authorIn r s = none := if_neg hr
    exact hs.sameFor hauthor rfl (awardPointsToBlockAuthor_sameFor hr) Iff.rfl

/-- A block of the round that pays. -/
theorem paid {n : ℕ} {l : List E.Account} (hl : l.Nodup) (hmem : ∀ a, a ∈ l ↔ a ∈ authors r tr)
    (hrun : s.onInitialize n = .ok s') (hdue : s'.round.current = r + E.rewardPaymentDelay)
    (h : Drawing r l (blocksOf (r + E.rewardPaymentDelay) tr + 1) True s') :
    Paying r (tr ++ [(s, .openBlock n)]) s' := by
  have hopens : (Turn.openBlock n).opens (r + E.rewardPaymentDelay) s = true := by
    unfold Turn.opens
    dsimp only
    rw [hrun]
    exact decide_eq_true hdue
  have hblocks : blocksOf (r + E.rewardPaymentDelay) (tr ++ [(s, .openBlock n)]) =
      blocksOf (r + E.rewardPaymentDelay) tr + 1 := by
    rw [blocksOf_snoc, if_pos hopens]
  have hnow : (r + E.rewardPaymentDelay ≤ s'.round.current) = True := eq_true (by omega)
  constructor
  · refine ⟨l, hl, ?_, ?_⟩
    · rw [authors_snoc]
      simpa [Turn.authorIn] using hmem
    · rw [hblocks, hnow]
      exact h
  · rw [hblocks]
    omega

theorem opened (hr : 0 < r) (hs : Paying r tr s) {n : ℕ} (hrun : s.onInitialize n = .ok s') :
    Paying r (tr ++ [(s, .openBlock n)]) s' := by
  obtain ⟨l, hl, hmem, hdrawing⟩ := hs.drawing
  cases (onInitialize_ok hrun).openedFor hr with
  | other h hround hne =>
    have hopens : (Turn.openBlock n).opens (r + E.rewardPaymentDelay) s = false := by
      unfold Turn.opens
      dsimp only
      rw [hrun]
      exact decide_eq_false hne
    exact hs.sameFor rfl hopens h (by omega)
  | goesOn h hround hdue =>
    have hnow : (r + E.rewardPaymentDelay ≤ s.round.current) = True := eq_true (by omega)
    rw [hnow] at hdrawing
    exact paid hl hmem hrun (hround.trans hdue) (hdrawing.handled h)
  | begins h₁ h₂ h₃ hround hdue =>
    have hbegun := hs.begun
    have hlater : (r + E.rewardPaymentDelay ≤ s.round.current) = False := eq_false (by omega)
    have hnone : blocksOf (r + E.rewardPaymentDelay) tr = 0 := by omega
    rw [hlater, hnone] at hdrawing
    apply paid hl hmem hrun (hround.trans hdue)
    rw [hnone]
    exact ((hdrawing.prepared h₁).sameFor h₂).handled h₃

theorem next (hdelay : 1 ≤ E.rewardPaymentDelay) (hr : 0 < r) (hs : Paying r tr s)
    (h : t.Does s s') : Paying r (tr ++ [(s, t)]) s' := by
  cases h with
  | opens hrun => exact hs.opened hr hrun
  | @halts n hrun =>
    have hopens : (Turn.openBlock n).opens (r + E.rewardPaymentDelay) s = false := by
      unfold Turn.opens
      dsimp only
      split
      · rename_i s' h
        exact absurd h (hrun s')
      · rfl
    exact hs.sameFor rfl hopens (.refl r s) Iff.rfl
  | panics => exact hs.sameFor rfl rfl (.refl r s) Iff.rfl
  | calls origin call config =>
    have hround : ((call.dispatch origin s.toState).2).round.current = s.round.current :=
      call.dispatch_current s.toState
    refine hs.sameFor rfl rfl ⟨rfl, rfl, rfl, rfl⟩ ?_
    show _ ≤ ((call.dispatch origin s.toState).2).round.current ↔ _
    rw [hround]
  | measures => exact hs.sameFor rfl rfl ⟨rfl, rfl, rfl, rfl⟩ Iff.rfl
  | moves world => exact hs.sameFor rfl rfl ⟨rfl, rfl, rfl, rfl⟩ Iff.rfl
  | closes author => exact hs.award hdelay author

theorem genesis (hdelay : 1 ≤ E.rewardPaymentDelay) (hr : 0 < r) {config : GenesisConfig E}
    {world : E.World} (h : config.build world = .ok s) : Paying r [] s := by
  obtain ⟨stakes, -, hselect⟩ :=
    GenesisConfig.build_ok (I := fun _ => True) (fun _ _ _ _ => trivial) h trivial
  obtain ⟨atStake, selected, rfl⟩ := (selectTopCandidates_ok hselect).same
  constructor
  · exact ⟨[], .nil, fun _ => Iff.rfl, .nobody rfl rfl rfl rfl⟩
  · show r + E.rewardPaymentDelay ≤ 1 ↔ 0 < 0
    omega

theorem run (hdelay : 1 ≤ E.rewardPaymentDelay) (hr : 0 < r) (h₀ : Paying r [] s₀)
    (h : Turns s₀ tr s) : Paying r tr s := by
  induction h with
  | nil => exact h₀
  | @snoc _ s t _ _ ih => exact ih.next hdelay hr (t.does s)

end Paying

/-- When the round that pays round `r` is over, each of those who were awarded points in it was
drawn once and nothing is left of it, exactly if the round that paid had more blocks than there are
of them. -/
theorem paid_once_iff (hdelay : 1 ≤ E.rewardPaymentDelay) {config : GenesisConfig E}
    {world : E.World} (hbuild : config.build world = .ok s₀) (h : Turns s₀ tr s) (hr : 0 < r)
    (hover : r + E.rewardPaymentDelay < s.round.current) :
    ((∀ a ∈ authors r tr, (s.drawn r).count a = 1) ∧ s.awardedPts r = [] ∧
      s.delayedPayouts.get r = none ∧ s.points.get r = none) ↔
    (authors r tr).dedup.length < blocksOf (r + E.rewardPaymentDelay) tr := by
  have hs := Paying.run hdelay hr (.genesis hdelay hr hbuild) h
  have hblocks := hs.begun.mp (by omega)
  obtain ⟨l, hl, hmem, hdrawing⟩ := hs.drawing
  have hperm : l.Perm (authors r tr).dedup := by
    apply (List.perm_ext_iff_of_nodup hl (List.nodup_dedup _)).mpr
    intro a
    rw [hmem, List.mem_dedup]
  rw [← hperm.length_eq]
  constructor
  · intro ⟨_, _, hpayout, _⟩
    by_contra hle
    have hsome := hdrawing.payout.mpr ⟨by omega, by omega⟩
    rw [hpayout] at hsome
    cases hsome
  · intro hlt
    have hawarded : s.awardedPts r = [] := by
      apply List.length_eq_zero_iff.mp
      rw [hdrawing.length_awarded]
      omega
    have hdrawn : s.drawn r = l := by
      rw [← hdrawing.awardees, Storage.awardees, hawarded]
      exact (List.append_nil _).symm
    refine ⟨?_, hawarded, ?_, hdrawing.cleaned (by omega)⟩
    · intro a ha
      rw [hdrawn]
      exact List.count_eq_one_of_mem hl ((hmem a).mpr ha)
    · apply Option.not_isSome_iff_eq_none.mp
      intro hsome
      have hpaid := hdrawing.payout.mp hsome
      omega

end Runs

section Witness
open Staking.Sample

/-- Two authors in a round, and three blocks in each of them. -/
def drained : List (Turn (economy ⟨1, 3, 1, 2⟩)) :=
  [.openBlock 3, .closeBlock (1 : ℕ), .openBlock 4, .closeBlock (2 : ℕ), .openBlock 5,
    .closeBlock (1 : ℕ), .openBlock 6, .openBlock 7, .openBlock 8, .openBlock 9]

theorem paid_once_drained :
    (∀ a ∈ authors 2 (trace Turn.next (genesis 0) drained),
      ((later 0 drained).drawn 2).count a = 1) ∧
    (later 0 drained).awardedPts 2 = [] ∧ (later 0 drained).delayedPayouts.get 2 = none ∧
    (later 0 drained).points.get 2 = none :=
  (paid_once_iff (by decide) (build_eq 0) (Run.play fun _ _ => trivial) (by decide)
    (by decide +kernel)).mpr (by decide +kernel)

/-- Two authors in a round of two blocks, and then rounds of one block. -/
def shortened : List (Turn (economy ⟨1, 2, 1, 2⟩)) :=
  [.openBlock 2, .closeBlock (1 : ℕ), .openBlock 3, .closeBlock (2 : ℕ),
    .call .root (.setBlocksPerRound 1), .openBlock 4, .closeBlock (1 : ℕ), .openBlock 5]

/-- The second author is not drawn, and its entries stay. -/
theorem undrawn : ¬ ∀ E : Economy, E.toRuntime.Lawful → E.toRuntime.Proper →
    1 ≤ E.rewardPaymentDelay → ∀ (config : GenesisConfig E) (world : E.World) (s₀ s : Storage E)
      (tr : List (Storage E × Turn E)) (r : ℕ), config.build world = .ok s₀ → Turns s₀ tr s →
    (∃ x ∈ tr, (x.1.delayedPayouts.get r).isSome) → r + E.rewardPaymentDelay < s.round.current →
    (∀ a ∈ authors r tr, (s.drawn r).count a = 1) ∧ s.awardedPts r = [] ∧
      s.delayedPayouts.get r = none ∧ s.points.get r = none := by
  intro h
  have hprepared : ∃ x ∈ trace Turn.next (genesis 0) shortened,
      (x.1.delayedPayouts.get 2).isSome := by decide +kernel
  have hpaid := h _ (economy_lawful _) (economy_proper (by decide)) (by decide) _ _ _
    (later 0 shortened) _ 2 (build_eq 0) (Run.play fun _ _ => trivial) hprepared (by decide +kernel)
  have hundrawn : ¬ ∀ a ∈ authors 2 (trace Turn.next (genesis 0) shortened),
      ((later 0 shortened).drawn 2).count a = 1 := by decide +kernel
  exact hundrawn hpaid.1

end Witness
end Staking
end ZkNft
