import ZkNft.Lib.Exec

/-! What a run over a storage leaves alone: the part of the storage it never writes, and the whole
of it where the run ends in an error. -/

universe u

namespace Tx
variable {σ τ ε α β : Type u}

/-- However the run ends, `f` of the storage is what it was. -/
def Keeps (f : σ → τ) (x : Tx σ ε α) : Prop := ∀ s, f (x s).2 = f s

namespace Keeps
variable {f : σ → τ} {x y : Tx σ ε α} {s s' : σ}

theorem run (h : x.Keeps f) {r : Exec ε α} (hx : x s = (r, s')) : f s' = f s := by
  have hs := h s
  rw [hx] at hs
  exact hs

theorem pure (a : α) : Keeps f (Pure.pure a : Tx σ ε α) := fun _ => rfl

theorem read (g : σ → Exec ε α) : Keeps f (Tx.read g) := fun _ => rfl

theorem modify {g : σ → σ} (h : ∀ s, f (g s) = f s) : Keeps f (Tx.modify g : Tx σ ε PUnit) := h

theorem bind {g : α → Tx σ ε β} (hx : x.Keeps f) (hg : ∀ a, (g a).Keeps f) :
    (x >>= g).Keeps f := by
  intro s
  have hs := hx s
  rw [bind_run, Tx.bind]
  rcases h : x s with ⟨a | e | t, s₁⟩
  · rw [h] at hs
    exact (hg a s₁).trans hs
  · rw [h] at hs
    exact hs
  · rw [h] at hs
    exact hs

theorem ite {p : Prop} [Decidable p] (hx : x.Keeps f) (hy : y.Keeps f) :
    (if p then x else y).Keeps f := by
  split_ifs
  · exact hx
  · exact hy

theorem expectOk (msg : String) (hx : x.Keeps f) : (Tx.expectOk msg x).Keeps f := by
  intro s
  have hs := hx s
  unfold Tx.expectOk
  rcases h : x s with ⟨a | e | t, s₁⟩
  all_goals
    rw [h] at hs
    exact hs

theorem transactional (hx : x.Keeps f) : (Tx.transactional x).Keeps f := by
  intro s
  have hs := hx s
  unfold Tx.transactional
  rcases h : x s with ⟨a | e | t, s₁⟩
  · rw [h] at hs
    exact hs
  · rfl
  · rfl

theorem recover (p : ε → Bool) (hx : x.Keeps f) (hy : y.Keeps f) :
    (Tx.recover p x y).Keeps f := by
  intro s
  have hs := hx s
  unfold Tx.recover
  rcases h : x s with ⟨a | e | t, s₁⟩
  · rw [h] at hs
    exact hs
  · rw [h] at hs
    dsimp only
    split_ifs
    · exact (hy s₁).trans hs
    · exact hs
  · rw [h] at hs
    exact hs

end Keeps

/-- Where `I` holds before a run, it holds after it, however the run ends. -/
def Preserves (I : σ → Prop) (x : Tx σ ε α) : Prop := ∀ s, I s → I (x s).2

namespace Preserves
variable {I : σ → Prop} {x : Tx σ ε α}

theorem pure (a : α) : Preserves I (Pure.pure a : Tx σ ε α) := fun _ hs => hs

theorem read (g : σ → Exec ε α) : Preserves I (Tx.read g) := fun _ hs => hs

theorem bind {g : α → Tx σ ε β} (hx : x.Preserves I) (hg : ∀ a, (g a).Preserves I) :
    (x >>= g).Preserves I := by
  intro s hs
  have hs' := hx s hs
  rw [bind_run, Tx.bind]
  rcases h : x s with ⟨a | e | t, s₁⟩
  · rw [h] at hs'
    exact hg a s₁ hs'
  · rw [h] at hs'
    exact hs'
  · rw [h] at hs'
    exact hs'

end Preserves

/-- A run that ends in an error has written nothing. -/
def Clean (x : Tx σ ε α) : Prop := ∀ s e s', x s = (.err e, s') → s' = s

/-- The run ends in a value or stops. -/
def NoErr (x : Tx σ ε α) : Prop := ∀ s e s', x s ≠ (.err e, s')

section Errors
variable {x y : Tx σ ε α}

theorem NoErr.clean (h : x.NoErr) : x.Clean := fun s e s' hx => absurd hx (h s e s')

theorem NoErr.pure (a : α) : (Pure.pure a : Tx σ ε α).NoErr := by
  intro s e s' h
  cases h

theorem NoErr.modify (f : σ → σ) : (Tx.modify f : Tx σ ε PUnit).NoErr := by
  intro s e s' h
  cases h

theorem NoErr.read {f : σ → Exec ε α} (h : ∀ s e, f s ≠ .err e) : (Tx.read f).NoErr := by
  intro s e s' hx
  exact h s e (Prod.mk.inj hx).1

theorem NoErr.bind {g : α → Tx σ ε β} (hx : x.NoErr) (hg : ∀ a, (g a).NoErr) :
    (x >>= g).NoErr := by
  intro s e s' h
  rw [bind_run, Tx.bind] at h
  rcases hx' : x s with ⟨a | e' | t, s₁⟩
  · rw [hx'] at h
    exact hg a s₁ e s' h
  · exact hx s e' s₁ hx'
  · rw [hx'] at h
    cases h

theorem NoErr.ite {p : Prop} [Decidable p] (hx : x.NoErr) (hy : y.NoErr) :
    (if p then x else y).NoErr := by
  split_ifs
  · exact hx
  · exact hy

/-- Only the part that reads can end in an error. -/
theorem Clean.read_bind {f : σ → Exec ε α} {g : α → Tx σ ε β} (hg : ∀ a, (g a).Clean) :
    (Tx.read f >>= g).Clean := by
  intro s e s' h
  rw [bind_run, Tx.bind, read_run] at h
  cases hf : f s with
  | ok a =>
    rw [hf] at h
    exact hg a s e s' h
  | err e' =>
    rw [hf] at h
    exact (Prod.mk.inj h).2.symm
  | trap t =>
    rw [hf] at h
    cases h

theorem Clean.bind {g : α → Tx σ ε β} (hx : x.Clean) (hg : ∀ a, (g a).NoErr) :
    (x >>= g).Clean := by
  intro s e s' h
  rw [bind_run, Tx.bind] at h
  rcases hx' : x s with ⟨a | e' | t, s₁⟩
  · rw [hx'] at h
    exact absurd h (hg a s₁ e s')
  · rw [hx'] at h
    obtain ⟨-, rfl⟩ := Prod.mk.inj h
    exact hx s e' _ hx'
  · rw [hx'] at h
    cases h

theorem Clean.ite {p : Prop} [Decidable p] (hx : x.Clean) (hy : y.Clean) :
    (if p then x else y).Clean := by
  split_ifs
  · exact hx
  · exact hy

theorem Clean.recover (p : ε → Bool) (hx : x.Clean) (hy : y.Clean) : (Tx.recover p x y).Clean := by
  intro s e s' h
  unfold Tx.recover at h
  rcases hx' : x s with ⟨a | e' | t, s₁⟩
  · rw [hx'] at h
    cases h
  · rw [hx'] at h
    have hs := hx s e' s₁ hx'
    dsimp only at h
    split_ifs at h
    · exact (hy s₁ e s' h).trans hs
    · obtain ⟨-, rfl⟩ := Prod.mk.inj h
      exact hs
  · rw [hx'] at h
    cases h

/-- What is tried first ends in a value, or what is tried next does, on a storage that is still
what it was. -/
theorem Clean.recover_ok {p : ε → Bool} (hx : x.Clean) {s s' : σ} {a : α}
    (h : Tx.recover p x y s = (.ok a, s')) : x s = (.ok a, s') ∨ y s = (.ok a, s') := by
  unfold Tx.recover at h
  rcases hx' : x s with ⟨b | e | t, s₁⟩
  · rw [hx'] at h
    exact .inl h
  · rw [hx'] at h
    obtain rfl := hx s e s₁ hx'
    dsimp only at h
    split_ifs at h
    · exact .inr h
    · cases h
  · rw [hx'] at h
    cases h

theorem expectOk_ok {msg : String} {s s' : σ} {a : α}
    (h : Tx.expectOk msg x s = (.ok a, s')) : x s = (.ok a, s') := by
  unfold Tx.expectOk at h
  rcases hx : x s with ⟨b | e | t, s₁⟩
  · rw [hx] at h
    exact h
  · rw [hx] at h
    cases h
  · rw [hx] at h
    cases h

/-- A run that cannot end in an error is expected to end in a value. -/
theorem Total.expectOk {msg : String} (hx : x.Total) (h : x.NoErr) : (Tx.expectOk msg x).Total := by
  intro s
  have hs := hx s
  unfold Tx.expectOk
  rcases hrun : x s with ⟨a | e | t, s₁⟩
  · exact Exec.ok_returns a
  · exact absurd hrun (h s e s₁)
  · rw [hrun] at hs
    exact hs

end Errors
end Tx
