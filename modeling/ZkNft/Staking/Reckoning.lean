import ZkNft.Staking.Books

/-! The pending requests under the collators against the sums of them that the delegators keep. -/

namespace ZkNft
namespace Staking
open Keyed StorageMap

variable {R : Runtime}

def dropRequest (d : R.Account) (requests : List (ScheduledRequest R.Account)) :
    List (ScheduledRequest R.Account) :=
  requests.eraseP fun r => r.delegator = d

/-- The amount of the first request of `d`. -/
def requestedBy (d : R.Account) (requests : List (ScheduledRequest R.Account)) : ℕ :=
  (requests.find? fun r => r.delegator = d).elim 0 fun r => r.action.amount

/-- What `d` has requested of its delegations `bonds`. -/
def requested (requests : R.Account → List (ScheduledRequest R.Account)) (d : R.Account)
    (bonds : List (Bond R.Account)) : ℕ :=
  (bonds.map fun x => requestedBy d (requests x.owner)).sum

/-- Every delegator keeps the sum of its requests, and a decrease leaves something. -/
structure Reckons (delegators : StorageMap R.Account (Delegator R.Account))
    (requests : R.Account → List (ScheduledRequest R.Account)) : Prop where
  less : ∀ d D, delegators.get d = some D → D.lessTotal = requested requests d D.delegations
  decrease : ∀ c, ∀ r ∈ requests c, ∀ D a less, delegators.get r.delegator = some D →
    ⟨c, a⟩ ∈ D.delegations → r.action = .decrease less → less < a

abbrev Reckoned (s : State R) : Prop := Reckons s.delegatorState s.delegationScheduledRequests

section Lists
variable {c d e : R.Account} {requests : List (ScheduledRequest R.Account)}
  {r : ScheduledRequest R.Account}

theorem dropRequest_sublist : (dropRequest d requests).Sublist requests := List.eraseP_sublist

/-- A delegator has one request at most. -/
theorem ne_of_mem_dropRequest (h : Distinct ScheduledRequest.delegator requests)
    (hr : r ∈ dropRequest d requests) : r.delegator ≠ d := by
  induction requests with
  | nil => cases hr
  | cons q requests ih =>
    have ⟨hne, hrest⟩ := distinct_cons.mp h
    unfold dropRequest at hr
    by_cases hq : q.delegator = d
    · rw [List.eraseP_cons_of_pos (by simpa using hq)] at hr
      rw [← hq]
      exact hne r hr
    · rw [List.eraseP_cons_of_neg (by simpa using hq)] at hr
      rcases List.mem_cons.mp hr with rfl | hr
      · exact hq
      · exact ih hrest hr

theorem requestedBy_none (h : ∀ r ∈ requests, r.delegator ≠ d) : requestedBy d requests = 0 := by
  have hnone : (requests.find? fun r => r.delegator = d) = none :=
    List.find?_eq_none.mpr fun r hr => by simpa using h r hr
  rw [requestedBy, hnone]
  rfl

theorem requestedBy_cons : requestedBy d (r :: requests) =
    if r.delegator = d then r.action.amount else requestedBy d requests := by
  unfold requestedBy
  by_cases hr : r.delegator = d
  · rw [List.find?_cons_of_pos (by simpa using hr), if_pos hr]
    rfl
  · rw [List.find?_cons_of_neg (by simpa using hr), if_neg hr]

theorem requestedBy_append_other (h : r.delegator ≠ d) :
    requestedBy d (requests ++ [r]) = requestedBy d requests := by
  induction requests with
  | nil => exact requestedBy_cons.trans (if_neg h)
  | cons q requests ih => rw [List.cons_append, requestedBy_cons, requestedBy_cons, ih]

theorem requestedBy_append_self (h : ∀ q ∈ requests, q.delegator ≠ r.delegator) :
    requestedBy r.delegator (requests ++ [r]) = r.action.amount := by
  induction requests with
  | nil => exact requestedBy_cons.trans (if_pos rfl)
  | cons q requests ih =>
    have ⟨hq, hrest⟩ := List.forall_mem_cons.mp h
    rw [List.cons_append, requestedBy_cons, if_neg hq, ih hrest]

/-- A request of another goes. -/
theorem requestedBy_erase {p : ScheduledRequest R.Account → Bool}
    (h : ∀ r, p r = true → r.delegator ≠ e) :
    requestedBy e (requests.eraseP p) = requestedBy e requests := by
  induction requests with
  | nil => rfl
  | cons q requests ih =>
    by_cases hq : p q = true
    · rw [List.eraseP_cons_of_pos hq, requestedBy_cons, if_neg (h q hq)]
    · rw [List.eraseP_cons_of_neg (by simpa using hq), requestedBy_cons, requestedBy_cons, ih]

theorem requestedBy_drop_other (h : e ≠ d) :
    requestedBy e (dropRequest d requests) = requestedBy e requests := by
  apply requestedBy_erase
  intro r hr
  rw [of_decide_eq_true hr]
  exact h.symm

theorem requestedBy_drop_self (h : Distinct ScheduledRequest.delegator requests) :
    requestedBy d (dropRequest d requests) = 0 :=
  requestedBy_none fun _ hr => ne_of_mem_dropRequest h hr

/-- Where each delegator has one request at most, the first one is all of them. -/
theorem requestedBy_eq_sum (h : Distinct ScheduledRequest.delegator requests) :
    requestedBy d requests =
      ((requests.filter fun r => r.delegator = d).map fun r => r.action.amount).sum := by
  induction requests with
  | nil => rfl
  | cons q requests ih =>
    have ⟨hne, hrest⟩ := distinct_cons.mp h
    rw [requestedBy_cons]
    by_cases hq : q.delegator = d
    · have hnil : (requests.filter fun r => r.delegator = d) = [] :=
        List.filter_eq_nil_iff.mpr fun r hr => by simpa [← hq] using hne r hr
      rw [if_pos hq, List.filter_cons_of_pos (by simpa using hq), hnil]
      rfl
    · rw [if_neg hq, ih hrest, List.filter_cons_of_neg (by simpa using hq)]

end Lists

section Sums
variable {requests requests' : R.Account → List (ScheduledRequest R.Account)} {d : R.Account}
  {bonds bonds' : List (Bond R.Account)} {x : Bond R.Account}

theorem requested_cons : requested requests d (x :: bonds) =
    requestedBy d (requests x.owner) + requested requests d bonds := by
  rw [requested, List.map_cons, List.sum_cons]
  rfl

theorem requested_perm (h : bonds.Perm bonds') :
    requested requests d bonds = requested requests d bonds' := (h.map _).sum_eq

/-- Only the candidates of the bonds matter, and only the requests of `d` for them. -/
theorem requested_congr (h : ∀ x ∈ bonds,
      requestedBy d (requests' x.owner) = requestedBy d (requests x.owner)) :
    requested requests' d bonds = requested requests d bonds := by
  unfold requested
  rw [List.map_congr_left h]

theorem requested_owners (h : bonds'.map Bond.owner = bonds.map Bond.owner) :
    requested requests d bonds' = requested requests d bonds := by
  have hmap : ∀ l : List (Bond R.Account), requested requests d l =
      ((l.map Bond.owner).map fun c => requestedBy d (requests c)).sum := by
    intro l
    rw [List.map_map]
    rfl
  rw [hmap, hmap, h]

theorem requested_le (h : ∀ x ∈ bonds, requestedBy d (requests x.owner) ≤ x.amount) :
    requested requests d bonds ≤ amounts bonds := by
  induction bonds with
  | nil => exact Nat.le_refl 0
  | cons x bonds ih =>
    have ⟨hx, hrest⟩ := List.forall_mem_cons.mp h
    rw [requested_cons, amounts_cons]
    exact Nat.add_le_add hx (ih hrest)

/-- The requests for one candidate change. -/
theorem requested_change (requests' : R.Account → List (ScheduledRequest R.Account))
    (hone : OneEach bonds) {c : R.Account} {a : ℕ} (hx : ⟨c, a⟩ ∈ bonds)
    (hother : ∀ b, b ≠ c → requests' b = requests b) :
    requested requests' d bonds + requestedBy d (requests c) =
      requested requests d bonds + requestedBy d (requests' c) := by
  have hperm : bonds.Perm (⟨c, a⟩ :: bonds.filter fun y => y.owner ≠ c) :=
    hone.perm_cons_filter hx
  have hrest : requested requests' d (bonds.filter fun y => y.owner ≠ c) =
      requested requests d (bonds.filter fun y => y.owner ≠ c) := by
    apply requested_congr
    intro y hy
    rw [hother y.owner (by simpa using (List.mem_filter.mp hy).2)]
  rw [requested_perm hperm, requested_perm hperm, requested_cons, requested_cons, hrest]
  show requestedBy d (requests' c) + _ + _ = requestedBy d (requests c) + _ + _
  omega

end Sums

section Changes
variable {delegators : StorageMap R.Account (Delegator R.Account)}
  {requests requests' : R.Account → List (ScheduledRequest R.Account)} {d : R.Account}
  {D D' : Delegator R.Account}

/-- One delegator changes, and its requests with it. -/
theorem Reckons.insert (h : Reckons delegators requests)
    (hself : D'.lessTotal = requested requests' d D'.delegations)
    (hother : ∀ c e, e ≠ d → requestedBy e (requests' c) = requestedBy e (requests c))
    (hkeep : ∀ c, ∀ r ∈ requests' c, r.delegator ≠ d → r ∈ requests c)
    (hfits : ∀ c, ∀ r ∈ requests' c, r.delegator = d → ∀ a less, ⟨c, a⟩ ∈ D'.delegations →
      r.action = .decrease less → less < a) :
    Reckons (delegators.insert d D') requests' := by
  constructor
  · apply forall_insert
    · exact hself
    · intro e E he hE
      rw [h.less e E hE]
      exact requested_congr fun x _ => (hother x.owner e he).symm
  · intro c r hr E a less hE hmem
    by_cases hrd : r.delegator = d
    · rw [hrd, get_insert_self] at hE
      obtain rfl := Option.some.inj hE
      exact hfits c r hr hrd a less hmem
    · rw [get_insert_of_ne _ _ hrd] at hE
      exact h.decrease c r (hkeep c r hr hrd) E a less hE hmem

/-- One delegator changes its requests. -/
theorem Reckons.rerequest (h : Reckons delegators requests) (hD : delegators.get d = some D)
    (hbonds : D'.delegations = D.delegations)
    (hself : D'.lessTotal = requested requests' d D.delegations)
    (hother : ∀ c e, e ≠ d → requestedBy e (requests' c) = requestedBy e (requests c))
    (hnew : ∀ c, ∀ r ∈ requests' c, r ∈ requests c ∨ r.delegator = d ∧
      ∀ a less, ⟨c, a⟩ ∈ D.delegations → r.action = .decrease less → less < a) :
    Reckons (delegators.insert d D') requests' := by
  rw [← hbonds] at hself hnew
  apply h.insert hself hother
  · intro c r hr hrd
    exact (hnew c r hr).resolve_right fun hfits => hrd hfits.1
  · intro c r hr hrd a less hmem
    rcases hnew c r hr with hold | ⟨_, hfits⟩
    · rw [hbonds] at hmem
      exact h.decrease c r hold D a less (hrd ▸ hD) hmem
    · exact hfits a less hmem

/-- One delegator goes, with its requests. -/
theorem Reckons.remove (h : Reckons delegators requests)
    (hother : ∀ c e, e ≠ d → requestedBy e (requests' c) = requestedBy e (requests c))
    (hkeep : ∀ c, ∀ r ∈ requests' c, r ∈ requests c) :
    Reckons (delegators.remove d) requests' := by
  constructor
  · apply forall_remove
    intro e E he hE
    rw [h.less e E hE]
    exact requested_congr fun x _ => (hother x.owner e he).symm
  · intro c r hr E a less hE
    by_cases hrd : r.delegator = d
    · rw [hrd, get_remove_self] at hE
      cases hE
    · rw [get_remove_of_ne _ hrd] at hE
      exact h.decrease c r (hkeep c r hr) E a less hE

end Changes
end Staking
end ZkNft
