import Mathlib.Tactic.Common

/-! Runs of a deterministic machine under a stream of moves, each recorded beside the state it
was made in. -/

/-- The runs of `next` from `s₀` whose moves are all allowed where they are made. -/
inductive Run {S M : Type*} (next : S → M → S) (allowed : S → M → Prop) (s₀ : S) :
    List (S × M) → S → Prop where
  | nil : Run next allowed s₀ [] s₀
  | snoc {tr : List (S × M)} {s : S} {m : M} (h : Run next allowed s₀ tr s) (hm : allowed s m) :
    Run next allowed s₀ (tr ++ [(s, m)]) (next s m)

/-- The record of a list of moves made one after the other. -/
def trace {S M : Type*} (next : S → M → S) : S → List M → List (S × M)
  | _, [] => []
  | s, m :: ms => (s, m) :: trace next (next s m) ms

theorem mem_of_trace {S M : Type*} {next : S → M → S} {ms : List M} {s : S} {x : S × M}
    (hx : x ∈ trace next s ms) : x.2 ∈ ms := by
  induction ms generalizing s with
  | nil => cases hx
  | cons m ms ih =>
    rcases List.mem_cons.mp hx with rfl | hx
    · exact List.mem_cons_self
    · exact List.mem_cons_of_mem m (ih hx)

theorem trace_append {S M : Type*} {next : S → M → S} {ms ms' : List M} {s : S} :
    trace next s (ms ++ ms') = trace next s ms ++ trace next (ms.foldl next s) ms' := by
  induction ms generalizing s with
  | nil => rfl
  | cons m ms ih => exact congrArg ((s, m) :: ·) ih

/-- `P` holds of every recorded move, with the record before it. -/
def Throughout {S M : Type*} (P : List (S × M) → S → M → Prop) (tr : List (S × M)) : Prop :=
  ∀ tr₁ s m tr₂, tr = tr₁ ++ (s, m) :: tr₂ → P tr₁ s m

namespace Throughout
variable {S M : Type*} {P : List (S × M) → S → M → Prop} {tr : List (S × M)} {s : S} {m : M}

theorem nil : Throughout P ([] : List (S × M)) := by
  intro tr₁ s m tr₂ h
  simp at h

theorem snoc (h : Throughout P tr) (hm : P tr s m) : Throughout P (tr ++ [(s, m)]) := by
  intro tr₁ s₁ m₁ tr₂ heq
  rcases List.eq_nil_or_concat tr₂ with rfl | ⟨init, x, rfl⟩
  · obtain ⟨rfl, hx⟩ := List.append_inj' heq rfl
    obtain ⟨rfl, rfl⟩ := Prod.mk.inj (List.singleton_inj.mp hx)
    exact hm
  · have hl : tr ++ [(s, m)] = (tr₁ ++ (s₁, m₁) :: init) ++ [x] := by simpa using heq
    obtain ⟨hpre, -⟩ := List.append_inj' hl rfl
    exact h tr₁ s₁ m₁ init hpre

theorem left {tr' : List (S × M)} (h : Throughout P (tr ++ tr')) : Throughout P tr := by
  intro tr₁ s m tr₂ heq
  apply h tr₁ s m (tr₂ ++ tr')
  rw [heq, List.append_assoc, List.cons_append]

theorem snoc_iff : Throughout P (tr ++ [(s, m)]) ↔ Throughout P tr ∧ P tr s m := by
  constructor
  · intro h
    exact ⟨h.left, h tr s m [] rfl⟩
  · intro ⟨h, hm⟩
    exact h.snoc hm

end Throughout

/-- `I` holds of every state of a run, each with the record that leads to it. -/
def AllAlong {S M : Type*} (I : List (S × M) → S → Prop) (tr : List (S × M)) (s : S) : Prop :=
  I tr s ∧ Throughout (fun tr₁ s₁ _ => I tr₁ s₁) tr

/-- `I` holds of every state of a run with record `tr` and last state `s`. -/
def Always {S M : Type*} (I : S → Prop) (tr : List (S × M)) (s : S) : Prop :=
  I s ∧ ∀ x ∈ tr, I x.1

/-- After a move that meets `start`, `P` holds in every recorded state. -/
def Since {S M : Type*} (start : S → M → Prop) (P : S → Prop) (tr : List (S × M)) : Prop :=
  ∃ tr₁ s m tr₂, tr = tr₁ ++ (s, m) :: tr₂ ∧ start s m ∧ ∀ x ∈ tr₂, P x.1

namespace Since
variable {S M : Type*} {start start' : S → M → Prop} {P : S → Prop} {tr : List (S × M)} {s : S}
  {m : M}

theorem last (h : start s m) : Since start P (tr ++ [(s, m)]) :=
  ⟨tr, s, m, [], rfl, h, by simp⟩

theorem snoc (h : Since start P tr) (hs : P s) : Since start P (tr ++ [(s, m)]) := by
  obtain ⟨tr₁, s₁, m₁, tr₂, rfl, hstart, hall⟩ := h
  refine ⟨tr₁, s₁, m₁, tr₂ ++ [(s, m)], by simp, hstart, ?_⟩
  intro x hx
  rcases List.mem_append.mp hx with hx | hx
  · exact hall x hx
  · rw [List.mem_singleton.mp hx]
    exact hs

theorem mono (h : Since start P tr) (hstart : ∀ s m, start s m → start' s m) :
    Since start' P tr := by
  obtain ⟨tr₁, s, m, tr₂, htr, hs, hall⟩ := h
  exact ⟨tr₁, s, m, tr₂, htr, hstart s m hs, hall⟩

end Since

namespace Run
variable {S M : Type*} {next : S → M → S} {allowed : S → M → Prop} {s₀ s s' : S}
  {tr tr' : List (S × M)}

/-- What holds at the start and is kept by every allowed move holds of every state reached. -/
theorem invariant {I : S → Prop} (h : Run next allowed s₀ tr s) (h₀ : I s₀)
    (hstep : ∀ s m, I s → allowed s m → I (next s m)) : I s := by
  induction h with
  | nil => exact h₀
  | snoc _ hm ih => exact hstep _ _ ih hm

/-- What holds at the start and is kept by every allowed move holds of every state on the way. -/
theorem always {I : S → Prop} (h : Run next allowed s₀ tr s) (h₀ : I s₀)
    (hstep : ∀ s m, I s → allowed s m → I (next s m)) : Always I tr s := by
  induction h with
  | nil => exact ⟨h₀, by simp⟩
  | @snoc tr s m hrun hm ih =>
    refine ⟨hstep s m ih.1 hm, ?_⟩
    intro x hx
    rcases List.mem_append.mp hx with hx | hx
    · exact ih.2 x hx
    · rw [List.mem_singleton.mp hx]
      exact ih.1

theorem cons {m : M} (hm : allowed s₀ m) (h : Run next allowed (next s₀ m) tr s) :
    Run next allowed s₀ ((s₀, m) :: tr) s := by
  induction h with
  | nil => exact .snoc .nil hm
  | snoc _ hm' ih => exact .snoc ih hm'

theorem append (h : Run next allowed s₀ tr s) (h' : Run next allowed s tr' s') :
    Run next allowed s₀ (tr ++ tr') s' := by
  induction h' with
  | nil => simpa using h
  | snoc _ hm ih => simpa using Run.snoc ih hm

/-- Moves that are allowed where they are made make a run. -/
theorem play {ms : List M} (h : ∀ x ∈ trace next s₀ ms, allowed x.1 x.2) :
    Run next allowed s₀ (trace next s₀ ms) (ms.foldl next s₀) := by
  induction ms generalizing s₀ with
  | nil => exact .nil
  | cons m ms ih =>
    have ⟨hm, hms⟩ := List.forall_mem_cons.mp h
    exact .cons hm (ih hms)

/-- Each recorded move was allowed in a state that the moves before it reach. -/
theorem split {s₁ : S} {m : M} (h : Run next allowed s₀ (tr ++ (s₁, m) :: tr') s) :
    Run next allowed s₀ tr s₁ ∧ allowed s₁ m ∧ Run next allowed (next s₁ m) tr' s := by
  generalize htr : tr ++ (s₁, m) :: tr' = l at h
  induction h generalizing tr' with
  | nil => simp at htr
  | @snoc l s m' h hm ih =>
    rcases List.eq_nil_or_concat tr' with rfl | ⟨init, x, rfl⟩
    · obtain ⟨rfl, hx⟩ := List.append_inj' htr rfl
      obtain ⟨rfl, rfl⟩ := Prod.mk.inj (List.singleton_inj.mp hx)
      exact ⟨h, hm, .nil⟩
    · have hl : (tr ++ (s₁, m) :: init) ++ [x] = l ++ [(s, m')] := by simpa using htr
      obtain ⟨hpre, hx⟩ := List.append_inj' hl rfl
      obtain rfl := List.singleton_inj.mp hx
      have ⟨h₁, hm₁, h₂⟩ := ih hpre
      exact ⟨h₁, hm₁, by simpa using Run.snoc h₂ hm⟩

/-- Where each move out of a good state leads to a good state exactly under `C`, every state of a
run is good exactly if all its moves meet `C`. -/
theorem always_iff {I : S → Prop} {C : S → M → Prop} (h : Run next allowed s₀ tr s) (h₀ : I s₀)
    (hstep : ∀ tr s m, Run next allowed s₀ tr s → I s → allowed s m → (I (next s m) ↔ C s m)) :
    Always I tr s ↔ ∀ x ∈ tr, C x.1 x.2 := by
  induction h with
  | nil => simp [Always, h₀]
  | @snoc tr s m hrun hm ih =>
    have hsnoc : Always I (tr ++ [(s, m)]) (next s m) ↔ Always I tr s ∧ I (next s m) := by
      simp only [Always, List.forall_mem_append, List.forall_mem_singleton]
      tauto
    rw [hsnoc, List.forall_mem_append, List.forall_mem_singleton, ← ih]
    constructor
    · intro ⟨hall, hnext⟩
      exact ⟨hall, (hstep tr s m hrun hall.1 hm).mp hnext⟩
    · intro ⟨hall, hc⟩
      exact ⟨hall, (hstep tr s m hrun hall.1 hm).mpr hc⟩

/-- As `always_iff`, for what depends on the moves made before. -/
theorem allAlong_iff {I : List (S × M) → S → Prop} {C : List (S × M) → S → M → Prop}
    (h : Run next allowed s₀ tr s) (h₀ : I [] s₀)
    (hstep : ∀ tr s m, Run next allowed s₀ tr s → I tr s → allowed s m →
      (I (tr ++ [(s, m)]) (next s m) ↔ C tr s m)) : AllAlong I tr s ↔ Throughout C tr := by
  induction h with
  | nil => exact iff_of_true ⟨h₀, Throughout.nil⟩ Throughout.nil
  | @snoc tr s m hrun hm ih =>
    rw [AllAlong, Throughout.snoc_iff, Throughout.snoc_iff, ← ih]
    constructor
    · intro ⟨hnext, hall, hs⟩
      exact ⟨⟨hs, hall⟩, (hstep tr s m hrun hs hm).mp hnext⟩
    · intro ⟨⟨hs, hall⟩, hc⟩
      exact ⟨(hstep tr s m hrun hs hm).mpr hc, hall, hs⟩

/-- What does not hold at the start has come about by a move, and has held since. -/
theorem since {P : S → Prop} (h : Run next allowed s₀ tr s) (h₀ : ¬ P s₀) (hs : P s) :
    Since (fun s m => ¬ P s ∧ P (next s m)) P tr := by
  induction h with
  | nil => exact absurd hs h₀
  | @snoc tr s m hrun hm ih =>
    by_cases hP : P s
    · exact (ih hP).snoc hP
    · exact .last ⟨hP, hs⟩

end Run
