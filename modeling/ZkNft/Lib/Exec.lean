import Mathlib.Data.List.Forall2
import Mathlib.Tactic.Common

/-! Results of code that returns a value, returns an error, or stops the machine:
a failing `expect`, an index out of bounds, a division by zero, an exhausted stack. -/

universe u v

/-- How a run stops without returning. -/
inductive Trap where
  | expect (msg : String)
  | index
  | divideByZero
  | stack
  deriving DecidableEq, Repr

inductive Exec (ε : Type u) (α : Type v) where
  | ok (a : α)
  | err (e : ε)
  | trap (t : Trap)
  deriving DecidableEq, Repr

namespace Exec

variable {ε ε' : Type u} {α β : Type v}

def bind (x : Exec ε α) (f : α → Exec ε β) : Exec ε β :=
  match x with
  | ok a => f a
  | err e => err e
  | trap t => trap t

instance : Monad (Exec ε) where
  pure := ok
  bind := bind

@[simp] theorem pure_eq_ok (a : α) : (pure a : Exec ε α) = ok a := rfl
@[simp] theorem ok_bind (a : α) (f : α → Exec ε β) : (ok a >>= f) = f a := rfl
@[simp] theorem err_bind (e : ε) (f : α → Exec ε β) : (err e >>= f) = err e := rfl
@[simp] theorem trap_bind (t : Trap) (f : α → Exec ε β) : (trap t >>= f) = trap t := rfl

instance : LawfulMonad (Exec ε) := LawfulMonad.mk' (Exec ε) (fun x => by cases x <;> rfl)
  (fun _ _ => rfl) (fun x _ _ => by cases x <;> rfl)

/-- A `Result` that cannot trap. -/
def lift : Except ε α → Exec ε α
  | .ok a => ok a
  | .error e => err e

def mapErr (f : ε → ε') : Exec ε α → Exec ε' α
  | ok a => ok a
  | err e => err (f e)
  | trap t => trap t

/-- Convert the error; a conversion that never ends exhausts the stack. -/
def convertErr (f : ε → Option ε') : Exec ε α → Exec ε' α
  | ok a => ok a
  | err e => (f e).elim (trap .stack) err
  | trap t => trap t

def ensure (p : Prop) [Decidable p] (e : ε) : Exec ε PUnit :=
  if p then ok ⟨⟩ else err e

/-- `Option::ok_or` followed by `?`. -/
def okOr (x : Option α) (e : ε) : Exec ε α :=
  match x with
  | some a => ok a
  | none => err e

/-- `expect` on an `Option`. -/
def expect (msg : String) : Option α → Exec ε α
  | some a => ok a
  | none => trap (.expect msg)

/-- A quotient, which there is none of by zero. -/
def divide : Option α → Exec ε α
  | some a => ok a
  | none => trap .divideByZero

/-- The quotient of two integers. -/
def div (x y : ℕ) : Exec ε ℕ := if y = 0 then trap .divideByZero else ok (x / y)

/-- `expect` on a `Result`, whose error is dropped. -/
def expectOk {ε₀ : Type*} (msg : String) : Except ε₀ α → Exec ε α
  | .ok a => ok a
  | .error _ => trap (.expect msg)

/-- The run ends in a value or an error. -/
def Returns (x : Exec ε α) : Prop := ∀ t, x ≠ trap t

section Inversion
variable {x : Exec ε α} {f : α → Exec ε β}

theorem bind_eq_ok {b : β} : (x >>= f) = ok b ↔ ∃ a, x = ok a ∧ f a = ok b := by
  cases x <;> simp

/-- A sequence stops where its first part does, or where the rest does on its value. -/
theorem bind_eq_trap {t : Trap} :
    (x >>= f) = trap t ↔ x = trap t ∨ ∃ a, x = ok a ∧ f a = trap t := by
  cases x <;> simp

/-- A sequence returns exactly if its first part does and the rest does on its value. -/
theorem bind_returns : (x >>= f).Returns ↔ x.Returns ∧ ∀ a, x = ok a → (f a).Returns := by
  cases x <;> simp [Returns]

end Inversion

@[simp] theorem ok_returns (a : α) : (ok a : Exec ε α).Returns := fun _ h => by cases h
@[simp] theorem err_returns (e : ε) : (err e : Exec ε α).Returns := fun _ h => by cases h
@[simp] theorem trap_returns (t : Trap) : ¬ (trap t : Exec ε α).Returns := fun h => h t rfl

/-- What returns is a value or an error. -/
theorem returns_iff {x : Exec ε α} : x.Returns ↔ (∃ a, x = ok a) ∨ ∃ e, x = err e := by
  cases x <;> simp

@[simp] theorem lift_eq_ok {x : Except ε α} {a : α} : lift x = ok a ↔ x = .ok a := by
  cases x <;> simp [lift]

@[simp] theorem lift_eq_err {x : Except ε α} {e : ε} : lift x = err e ↔ x = .error e := by
  cases x <;> simp [lift]

@[simp] theorem lift_returns (x : Except ε α) : (lift x).Returns := by
  cases x <;> simp [lift]

@[simp] theorem mapErr_eq_ok {g : ε → ε'} {x : Exec ε α} {a : α} :
    mapErr g x = ok a ↔ x = ok a := by
  cases x <;> simp [mapErr]

@[simp] theorem mapErr_eq_err {g : ε → ε'} {x : Exec ε α} {e : ε'} :
    mapErr g x = err e ↔ ∃ e₀, x = err e₀ ∧ g e₀ = e := by
  cases x <;> simp [mapErr]

@[simp] theorem mapErr_eq_trap {g : ε → ε'} {x : Exec ε α} {t : Trap} :
    mapErr g x = trap t ↔ x = trap t := by
  cases x <;> simp [mapErr]

@[simp] theorem mapErr_returns {g : ε → ε'} {x : Exec ε α} :
    (mapErr g x).Returns ↔ x.Returns := by
  cases x <;> simp [mapErr]

@[simp] theorem convertErr_eq_ok {g : ε → Option ε'} {x : Exec ε α} {a : α} :
    convertErr g x = ok a ↔ x = ok a := by
  cases x with
  | err e => cases h : g e <;> simp [convertErr, h]
  | _ => simp [convertErr]

theorem convertErr_returns {g : ε → Option ε'} {x : Exec ε α} :
    (convertErr g x).Returns ↔ x.Returns ∧ ∀ e, x = err e → (g e).isSome := by
  cases x with
  | err e => cases h : g e <;> simp [convertErr, h]
  | _ => simp [convertErr]

/-- Conversions that end do not matter for whether a run returns. -/
theorem convertErr_returns_of_isSome {g : ε → Option ε'} {x : Exec ε α}
    (h : ∀ e, (g e).isSome) : (convertErr g x).Returns ↔ x.Returns :=
  convertErr_returns.trans (and_iff_left fun e _ => h e)

theorem ensure_convertErr_returns {p : Prop} [Decidable p] {e : ε} {g : ε → Option ε'}
    (h : (g e).isSome) : (convertErr g (ensure p e)).Returns := by
  unfold ensure
  split
  · exact ok_returns _
  · obtain ⟨e', he⟩ := Option.isSome_iff_exists.mp h
    simp only [convertErr, he, Option.elim_some, err_returns]

theorem convertErr_mapErr {ε₀ : Type u} {f : ε₀ → ε} {g : ε → Option ε'} {x : Exec ε₀ α} :
    convertErr g (mapErr f x) = convertErr (fun e => g (f e)) x := by
  cases x <;> rfl

/-- Converting the errors of a sequence converts those of its parts. -/
theorem convertErr_bind {g : ε → Option ε'} {x : Exec ε α} {f : α → Exec ε β} :
    convertErr g (x >>= f) = convertErr g x >>= fun a => convertErr g (f a) := by
  cases x with
  | err e => cases h : g e <;> simp [convertErr, h]
  | _ => rfl

@[simp] theorem ensure_eq_ok {p : Prop} [Decidable p] {e : ε} {u : PUnit} :
    ensure p e = ok u ↔ p := by
  unfold ensure
  split <;> simp [*]

@[simp] theorem ensure_returns (p : Prop) [Decidable p] (e : ε) : (ensure p e).Returns := by
  unfold ensure
  split <;> simp

@[simp] theorem okOr_eq_ok {x : Option α} {e : ε} {a : α} : okOr x e = ok a ↔ x = some a := by
  cases x <;> simp [okOr]

@[simp] theorem okOr_returns (x : Option α) (e : ε) : (okOr x e).Returns := by
  cases x <;> simp [okOr]

@[simp] theorem expect_eq_ok {msg : String} {x : Option α} {a : α} :
    (expect msg x : Exec ε α) = ok a ↔ x = some a := by
  cases x <;> simp [expect]

@[simp] theorem expect_returns {msg : String} {x : Option α} :
    (expect msg x : Exec ε α).Returns ↔ ∃ a, x = some a := by
  cases x <;> simp [expect]

@[simp] theorem expect_eq_trap {msg : String} {x : Option α} {t : Trap} :
    (expect msg x : Exec ε α) = trap t ↔ x = none ∧ t = .expect msg := by
  cases x <;> simp [expect, eq_comm]

@[simp] theorem divide_eq_ok {x : Option α} {a : α} :
    (divide x : Exec ε α) = ok a ↔ x = some a := by
  cases x <;> simp [divide]

@[simp] theorem divide_eq_trap {x : Option α} {t : Trap} :
    (divide x : Exec ε α) = trap t ↔ x = none ∧ t = .divideByZero := by
  cases x <;> simp [divide, eq_comm]

@[simp] theorem div_eq_ok {x y z : ℕ} : (div x y : Exec ε ℕ) = ok z ↔ y ≠ 0 ∧ x / y = z := by
  unfold div
  split <;> simp [*]

@[simp] theorem div_eq_trap {x y : ℕ} {t : Trap} :
    (div x y : Exec ε ℕ) = trap t ↔ y = 0 ∧ t = .divideByZero := by
  unfold div
  split <;> simp [*, eq_comm]

@[simp] theorem expectOk_eq_ok {ε₀ : Type*} {msg : String} {x : Except ε₀ α} {a : α} :
    (expectOk msg x : Exec ε α) = ok a ↔ x = .ok a := by
  cases x <;> simp [expectOk]

@[simp] theorem expectOk_returns {ε₀ : Type*} {msg : String} {x : Except ε₀ α} :
    (expectOk msg x : Exec ε α).Returns ↔ ∃ a, x = .ok a := by
  cases x <;> simp [expectOk]

theorem except_ok_bind (a : α) (f : α → Except ε β) : (Except.ok a >>= f) = f a := rfl

/-- The inversion of a `Result` sequence. -/
theorem except_bind_eq_ok {x : Except ε α} {f : α → Except ε β} {b : β} :
    (x >>= f) = .ok b ↔ ∃ a, x = .ok a ∧ f a = .ok b := by
  cases x <;> simp [Bind.bind, Except.bind]

theorem except_mapError_eq_ok {x : Except ε α} {g : ε → ε'} {a : α} :
    x.mapError g = .ok a ↔ x = .ok a := by
  cases x <;> simp [Except.mapError]

/-- A traversal succeeds exactly with the list of the results. -/
theorem except_mapM_eq_ok {f : α → Except ε β} {xs : List α} {ys : List β} :
    xs.mapM f = .ok ys ↔ List.Forall₂ (fun x y => f x = .ok y) xs ys := by
  induction xs generalizing ys with
  | nil => simp [pure, Except.pure, eq_comm]
  | cons x xs ih =>
    simp only [List.mapM_cons, except_bind_eq_ok, ih, List.forall₂_cons_left_iff]
    constructor
    · rintro ⟨y, hy, zs, hzs, h⟩
      exact ⟨y, zs, hy, hzs, (Except.ok.inj h).symm⟩
    · rintro ⟨y, zs, hy, hzs, rfl⟩
      exact ⟨y, hy, zs, hzs, rfl⟩

theorem except_mapM_none {f : α → Except ε β} {y : Option β} :
    (none : Option α).mapM f = .ok y ↔ y = none := by
  simp [pure, Except.pure, eq_comm]

theorem except_mapM_some {f : α → Except ε β} {x : α} {y : Option β} :
    (some x).mapM f = .ok y ↔ ∃ z, f x = .ok z ∧ y = some z := by
  rw [Option.mapM_some, ← bind_pure_comp, except_bind_eq_ok]
  simp [pure, Except.pure, eq_comm]

theorem except_mapM_total {f : α → Except ε β} (h : ∀ x, ∃ y, f x = .ok y) (xs : List α) :
    ∃ ys, xs.mapM f = .ok ys := by
  induction xs with
  | nil => exact ⟨[], rfl⟩
  | cons x xs ih =>
    obtain ⟨y, hy⟩ := h x
    obtain ⟨ys, hys⟩ := ih
    refine ⟨y :: ys, ?_⟩
    rw [List.mapM_cons, hy, hys]
    rfl

theorem except_option_mapM_total {f : α → Except ε β} (h : ∀ x, ∃ y, f x = .ok y)
    (x : Option α) : ∃ y, x.mapM f = .ok y := by
  cases x with
  | none => exact ⟨none, rfl⟩
  | some x =>
    obtain ⟨y, hy⟩ := h x
    refine ⟨some y, ?_⟩
    rw [Option.mapM_some, hy]
    rfl

theorem except_mapM_mem {f : α → Except ε β} {xs : List α} {ys : List β}
    (h : xs.mapM f = .ok ys) {y : β} (hy : y ∈ ys) : ∃ x ∈ xs, f x = .ok y := by
  have hrel := except_mapM_eq_ok.mp h
  clear h
  induction hrel with
  | nil => cases hy
  | @cons x z xs zs hx _ ih =>
    rcases List.mem_cons.mp hy with rfl | hy
    · exact ⟨x, by simp, hx⟩
    · obtain ⟨x', hmem, hx'⟩ := ih hy
      exact ⟨x', by simp [hmem], hx'⟩

/-- What holds between entries holds between what they are related to. -/
theorem forall₂_pairwise {r : α → β → Prop} {S : α → α → Prop} {T : β → β → Prop}
    (hST : ∀ x x' y y', r x y → r x' y' → S x x' → T y y') {xs : List α} {ys : List β}
    (h : List.Forall₂ r xs ys) (hp : xs.Pairwise S) : ys.Pairwise T := by
  have hmem : ∀ {xs : List α} {ys : List β}, List.Forall₂ r xs ys →
      ∀ y ∈ ys, ∃ x ∈ xs, r x y := by
    intro xs ys h
    induction h with
    | nil => simp
    | cons hx _ ih => simpa [hx] using fun y hy => .inr (ih y hy)
  induction h with
  | nil => exact List.Pairwise.nil
  | @cons x y xs ys hx hrest ih =>
    have ⟨hhead, htail⟩ := List.pairwise_cons.mp hp
    refine List.pairwise_cons.mpr ⟨fun y' hy' => ?_, ih htail⟩
    obtain ⟨x', hx', hr⟩ := hmem hrest y' hy'
    exact hST x x' y y' hx hr (hhead x' hx')

theorem except_mapM_append {f : α → Except ε β} {xs xs' : List α} {ys ys' : List β}
    (h : xs.mapM f = .ok ys) (h' : xs'.mapM f = .ok ys') :
    (xs ++ xs').mapM f = .ok (ys ++ ys') := by
  rw [except_mapM_eq_ok] at *
  exact List.rel_append h h'

/-- A traversal whose check returns its own input succeeds exactly if every check does. -/
theorem except_mapM_self {α : Type v} {ε : Type u} {f : α → Except ε α}
    (hf : ∀ x y, f x = .ok y → y = x) {xs ys : List α} :
    xs.mapM f = .ok ys ↔ ys = xs ∧ ∀ x ∈ xs, f x = .ok x := by
  induction xs generalizing ys with
  | nil => simp [pure, Except.pure, eq_comm]
  | cons x xs ih =>
    simp only [List.mapM_cons, except_bind_eq_ok, List.forall_mem_cons]
    constructor
    · rintro ⟨y, hy, zs, hzs, h⟩
      obtain rfl := hf x y hy
      obtain ⟨rfl, hall⟩ := ih.mp hzs
      exact ⟨by simpa [pure, Except.pure, eq_comm] using h, hy, hall⟩
    · rintro ⟨rfl, hx, hall⟩
      exact ⟨x, hx, xs, ih.mpr ⟨rfl, hall⟩, rfl⟩

/-- A traversal of checks that pass their input on succeeds exactly if every check does. -/
theorem except_mapM_check {f : α → Except ε α} {P : α → Prop}
    (hf : ∀ x y, f x = .ok y ↔ y = x ∧ P x) {xs ys : List α} :
    xs.mapM f = .ok ys ↔ ys = xs ∧ ∀ x ∈ xs, P x := by
  rw [except_mapM_self fun x y hxy => ((hf x y).mp hxy).1]
  simp only [hf, true_and]

end Exec

/-- A run over a storage `σ`: what it wrote before an error stays written. -/
def Tx (σ ε α : Type u) := σ → Exec ε α × σ

namespace Tx

variable {σ ε ε' α β : Type u}

def bind (x : Tx σ ε α) (f : α → Tx σ ε β) : Tx σ ε β := fun s =>
  match x s with
  | (.ok a, s') => f a s'
  | (.err e, s') => (.err e, s')
  | (.trap t, s') => (.trap t, s')

instance : Monad (Tx σ ε) where
  pure a := fun s => (.ok a, s)
  bind := bind

/-- A computation that only reads. -/
def read (f : σ → Exec ε α) : Tx σ ε α := fun s => (f s, s)

def modify (f : σ → σ) : Tx σ ε PUnit := fun s => (.ok ⟨⟩, f s)

/-- Change the error of a run, on the part `get` of a larger storage. -/
def zoom {τ : Type u} (get : τ → σ) (set : τ → σ → τ) (g : ε → ε') (x : Tx σ ε α) :
    Tx τ ε' α := fun t => ((x (get t)).1.mapErr g, set t (x (get t)).2)

def convertErr (g : ε → Option ε') (x : Tx σ ε α) : Tx σ ε' α := fun s =>
  ((x s).1.convertErr g, (x s).2)

/-- Run `y` instead where `x` ends in an error with `p`, on what `x` wrote. -/
def recover (p : ε → Bool) (x y : Tx σ ε α) : Tx σ ε α := fun s =>
  match x s with
  | (.err e, s') => if p e then y s' else (.err e, s')
  | r => r

/-- Whether a run ends in a value. Its error is dropped. -/
def logged {σ ε ε' : Type} (x : Tx σ ε PUnit) : Tx σ ε' Bool := fun s =>
  match x s with
  | (.ok _, s') => (.ok true, s')
  | (.err _, s') => (.ok false, s')
  | (.trap t, s') => (.trap t, s')

/-- `expect` on the `Result` of a run, whose error is dropped. -/
def expectOk (msg : String) (x : Tx σ ε α) : Tx σ ε α := fun s =>
  match x s with
  | (.err _, s') => (.trap (.expect msg), s')
  | r => r

/-- Roll the storage back unless the run ends in a value. -/
def transactional (x : Tx σ ε α) : Tx σ ε α := fun s =>
  match x s with
  | (.ok a, s') => (.ok a, s')
  | (r, _) => (r, s)

variable {s s' : σ}

@[simp] theorem pure_run (a : α) : (pure a : Tx σ ε α) s = (.ok a, s) := rfl

@[simp] theorem read_run (f : σ → Exec ε α) : read f s = (f s, s) := rfl

@[simp] theorem modify_run (f : σ → σ) : (modify f : Tx σ ε PUnit) s = (.ok ⟨⟩, f s) := rfl

theorem run_of_fst {x : Tx σ ε α} {r : Exec ε α} (h : (x s).1 = r) : x s = (r, (x s).2) :=
  Prod.ext h rfl

theorem bind_run (x : Tx σ ε α) (f : α → Tx σ ε β) : (x >>= f) s = Tx.bind x f s := rfl

theorem bind_run_of_ok {x : Tx σ ε α} {f : α → Tx σ ε β} {a : α} (h : x s = (.ok a, s')) :
    (x >>= f) s = f a s' := by
  rw [bind_run, Tx.bind, h]

/-- The inversion of a sequence that ends in a value. -/
theorem bind_run_ok {x : Tx σ ε α} {f : α → Tx σ ε β} {b : β} :
    (x >>= f) s = (.ok b, s') ↔ ∃ a s₁, x s = (.ok a, s₁) ∧ f a s₁ = (.ok b, s') := by
  rw [bind_run, Tx.bind]
  rcases hx : x s with ⟨_ | _ | _, s₁⟩ <;> simp

theorem read_bind_ok {f : σ → Exec ε α} {g : α → Tx σ ε β} {b : β} :
    (read f >>= g) s = (.ok b, s') ↔ ∃ a, f s = .ok a ∧ g a s = (.ok b, s') := by
  rw [bind_run, Tx.bind, read_run]
  cases f s <;> simp

theorem modify_bind_ok {f : σ → σ} {g : PUnit → Tx σ ε β} {b : β} :
    (modify f >>= g) s = (.ok b, s') ↔ g ⟨⟩ (f s) = (.ok b, s') := Iff.rfl

theorem pure_ok {a b : α} : (pure a : Tx σ ε α) s = (.ok b, s') ↔ b = a ∧ s' = s := by
  simp [eq_comm]

theorem modify_ok {f : σ → σ} {u : PUnit} :
    (modify f : Tx σ ε PUnit) s = (.ok u, s') ↔ s' = f s := by
  simp [eq_comm]

theorem bind_run_returns {x : Tx σ ε α} {f : α → Tx σ ε β} :
    ((x >>= f) s).1.Returns ↔
      (x s).1.Returns ∧ ∀ a s₁, x s = (.ok a, s₁) → (f a s₁).1.Returns := by
  rw [bind_run, Tx.bind]
  rcases hx : x s with ⟨_ | _ | _, s₁⟩ <;> simp

/-- A sequence stops where its first part does, or where the rest does after it. -/
theorem bind_run_trap {x : Tx σ ε α} {f : α → Tx σ ε β} {t : Trap} :
    ((x >>= f) s).1 = .trap t ↔
      (x s).1 = .trap t ∨ ∃ a s₁, x s = (.ok a, s₁) ∧ (f a s₁).1 = .trap t := by
  rw [bind_run, Tx.bind]
  rcases hx : x s with ⟨_ | _ | _, s₁⟩ <;> simp

theorem zoom_run_ok {τ : Type u} {get : τ → σ} {set : τ → σ → τ} {g : ε → ε'} {x : Tx σ ε α}
    {t t' : τ} {a : α} :
    zoom get set g x t = (.ok a, t') ↔ ∃ s', x (get t) = (.ok a, s') ∧ t' = set t s' := by
  unfold zoom
  rcases x (get t) with ⟨_ | _ | _, s₁⟩ <;> simp [Exec.mapErr, eq_comm]

theorem convertErr_run_ok {g : ε → Option ε'} {x : Tx σ ε α} {a : α} :
    convertErr g x s = (.ok a, s') ↔ x s = (.ok a, s') := by
  unfold convertErr
  rcases x s with ⟨_ | _ | _, s₁⟩ <;> simp [Prod.ext_iff]

theorem read_bind_returns {f : σ → Exec ε α} {g : α → Tx σ ε β} :
    ((read f >>= g) s).1.Returns ↔ (f s).Returns ∧ ∀ a, f s = .ok a → (g a s).1.Returns := by
  rw [bind_run, Tx.bind, read_run]
  cases f s <;> simp

theorem transactional_run_ok {x : Tx σ ε α} {a : α} :
    transactional x s = (.ok a, s') ↔ x s = (.ok a, s') := by
  unfold transactional
  rcases x s with ⟨_ | _ | _, s₁⟩ <;> simp

/-- A logged run leaves what the run left. -/
theorem logged_run_ok {σ ε ε' : Type} {x : Tx σ ε PUnit} {s s' : σ} {b : Bool}
    (h : (logged x : Tx σ ε' Bool) s = (.ok b, s')) : (x s).2 = s' := by
  unfold logged at h
  rcases hx : x s with ⟨_ | _ | _, s₁⟩ <;> simp_all

theorem convertErr_bind {g : ε → Option ε'} {x : Tx σ ε α} {f : α → Tx σ ε β} :
    convertErr g (x >>= f) = convertErr g x >>= fun a => convertErr g (f a) := by
  funext s
  simp only [convertErr, bind_run, Tx.bind]
  rcases x s with ⟨_ | e | _, s₁⟩
  · rfl
  · cases h : g e <;> simp [Exec.convertErr, h]
  · rfl

@[simp] theorem transactional_returns {x : Tx σ ε α} :
    (transactional x s).1.Returns ↔ (x s).1.Returns := by
  unfold transactional
  rcases x s with ⟨_ | _ | _, s₁⟩ <;> simp

theorem transactional_run_trap {x : Tx σ ε α} {t : Trap} :
    (transactional x s).1 = .trap t ↔ (x s).1 = .trap t := by
  unfold transactional
  rcases x s with ⟨_ | _ | _, s₁⟩ <;> simp

/-- A transaction that does not end in a value changes nothing. -/
theorem transactional_rollback {x : Tx σ ε α} (h : ∀ a, (transactional x s).1 ≠ .ok a) :
    (transactional x s).2 = s := by
  revert h
  unfold transactional
  rcases x s with ⟨_ | _ | _, s₁⟩ <;> simp

section Loop
variable {f : α → Tx σ ε PUnit} {xs : List α}

/-- Each turn of a loop that ends in a value does so. -/
theorem forM_each (h : xs.forM f s = (.ok ⟨⟩, s')) {x : α} (hx : x ∈ xs) :
    ∃ s₁ s₂, f x s₁ = (.ok ⟨⟩, s₂) := by
  induction xs generalizing s with
  | nil => cases hx
  | cons y xs ih =>
    obtain ⟨_, s₁, hhead, htail⟩ := bind_run_ok.mp h
    rcases List.mem_cons.mp hx with rfl | hx
    · exact ⟨s, s₁, hhead⟩
    · exact ih htail hx

/-- Where each turn writes `v` or nothing, the loop writes `v` if one of its turns does. -/
theorem forM_writes {V : Type*} (observe : σ → V) {v : V} {W : α → Prop} [DecidablePred W]
    (hf : ∀ x ∈ xs, ∀ s s', f x s = (.ok ⟨⟩, s') → observe s' = if W x then v else observe s)
    (h : xs.forM f s = (.ok ⟨⟩, s')) :
    observe s' = if ∃ x ∈ xs, W x then v else observe s := by
  induction xs generalizing s with
  | nil =>
    obtain ⟨-, rfl⟩ := pure_ok.mp h
    exact (if_neg (by simp)).symm
  | cons x xs ih =>
    have ⟨hx, hxs⟩ := List.forall_mem_cons.mp hf
    obtain ⟨_, s₁, hhead, htail⟩ := bind_run_ok.mp h
    rw [ih hxs htail, hx s s₁ hhead]
    by_cases hW : W x
    · simp [hW]
    · simp [hW]

end Loop

/-- A run that returns ends in a value. -/
def Infallible (x : Tx σ ε α) : Prop := ∀ s, (x s).1.Returns → ∃ a s', x s = (.ok a, s')

namespace Infallible
variable {x : Tx σ ε α} {f : α → Tx σ ε β}

theorem pure (a : α) : Infallible (Pure.pure a : Tx σ ε α) := fun s _ => ⟨a, s, rfl⟩

theorem modify (f : σ → σ) : Infallible (Tx.modify f : Tx σ ε PUnit) :=
  fun s _ => ⟨⟨⟩, f s, rfl⟩

theorem read {f : σ → Exec ε α} (h : ∀ s, (f s).Returns → ∃ a, f s = .ok a) :
    Infallible (Tx.read f) := by
  intro s hs
  obtain ⟨a, ha⟩ := h s hs
  exact ⟨a, s, by rw [read_run, ha]⟩

theorem bind (hx : x.Infallible) (hf : ∀ a, (f a).Infallible) : (x >>= f).Infallible := by
  intro s hs
  have ⟨hret, hrest⟩ := bind_run_returns.mp hs
  obtain ⟨a, s₁, ha⟩ := hx s hret
  obtain ⟨b, s', hb⟩ := hf a s₁ (hrest a s₁ ha)
  exact ⟨b, s', bind_run_ok.mpr ⟨a, s₁, ha, hb⟩⟩

theorem convertErr_returns (hx : x.Infallible) {g : ε → Option ε'} :
    (convertErr g x s).1.Returns ↔ (x s).1.Returns := by
  constructor
  · intro h
    exact (Exec.convertErr_returns.mp h).1
  · intro h
    obtain ⟨a, s', ha⟩ := hx s h
    rw [convertErr_run_ok.mpr ha]
    exact Exec.ok_returns a

end Infallible

/-- Every run returns. -/
def Total (x : Tx σ ε α) : Prop := ∀ s, (x s).1.Returns

namespace Total
variable {x y : Tx σ ε α} {f : α → Tx σ ε β}

theorem pure (a : α) : Total (Pure.pure a : Tx σ ε α) := fun _ => Exec.ok_returns a

theorem modify (f : σ → σ) : Total (Tx.modify f : Tx σ ε PUnit) := fun _ => Exec.ok_returns _

theorem read {f : σ → Exec ε α} (h : ∀ s, (f s).Returns) : Total (Tx.read f) := h

theorem bind (hx : x.Total) (hf : ∀ a, (f a).Total) : (x >>= f).Total := by
  intro s
  apply bind_run_returns.mpr
  exact ⟨hx s, fun a s₁ _ => hf a s₁⟩

theorem ite {p : Prop} [Decidable p] (hx : x.Total) (hy : y.Total) :
    (if p then x else y).Total := by
  split_ifs
  · exact hx
  · exact hy

theorem transactional (hx : x.Total) : (Tx.transactional x).Total :=
  fun s => transactional_returns.mpr (hx s)

end Total

/-- A run that stops does so for a reason in `P`. -/
def TrapsOnly (P : Trap → Prop) (x : Tx σ ε α) : Prop := ∀ s t, (x s).1 = .trap t → P t

namespace TrapsOnly
variable {P : Trap → Prop} {x : Tx σ ε α} {f : α → Tx σ ε β}

theorem of_total (h : x.Total) : x.TrapsOnly P := fun s t ht => absurd ht (h s t)

theorem read {f : σ → Exec ε α} (h : ∀ s t, f s = .trap t → P t) : (Tx.read f).TrapsOnly P := h

theorem bind (hx : x.TrapsOnly P) (hf : ∀ a, (f a).TrapsOnly P) : (x >>= f).TrapsOnly P := by
  intro s t ht
  rcases bind_run_trap.mp ht with hx' | ⟨a, s₁, -, hf'⟩
  · exact hx s t hx'
  · exact hf a s₁ t hf'

end TrapsOnly

end Tx
