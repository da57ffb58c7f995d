import ZkNft.Staking.Panics
import Mathlib.Analysis.SpecialFunctions.Pow.Real

/-! The inflation of a round, which is computed when the length of the rounds or the annual
inflation changes. -/

namespace ZkNft
namespace Staking

variable {E : Economy}

section Rates

noncomputable def toReal (a : I64F64) : ℝ := a.bits / 2 ^ 64

/-- What the code relies on of the powers of numbers from one on, to exponents from zero on. -/
structure Economy.Powers (E : Economy) : Prop where
  mono {a b e y z : I64F64} (ha : 2 ^ 64 ≤ a.bits) (he : 0 ≤ e.bits) (h : a.bits ≤ b.bits) :
    E.pow a e = some y → E.pow b e = some z → y.bits ≤ z.bits
  overflow {a e : I64F64} (ha : 2 ^ 64 ≤ a.bits) (he : 0 ≤ e.bits) :
    E.pow a e = none → 2 ^ 63 ≤ toReal a ^ toReal e
  one {e : I64F64} (he : 0 ≤ e.bits) : E.pow (Fixed.fromNum 1) e = some (Fixed.fromNum 1)
  /-- Bases up to two and exponents up to one give a rough result. -/
  close {a e y : I64F64} (ha : 2 ^ 64 ≤ a.bits) (ha' : a.bits ≤ 2 * 2 ^ 64) (he : 0 ≤ e.bits)
    (he' : e.bits ≤ 2 ^ 64) : E.pow a e = some y → |toReal y - toReal a ^ toReal e| ≤ 1

theorem fromNum_one : (Fixed.fromNum 1 : I64F64).bits = 2 ^ 64 := by decide

theorem le_toReal (n : ℕ) {a : I64F64} : (n : ℝ) ≤ toReal a ↔ n * 2 ^ 64 ≤ a.bits := by
  rw [toReal, le_div_iff₀ (by positivity)]
  exact_mod_cast Iff.rfl

theorem toReal_le (n : ℕ) {a : I64F64} : toReal a ≤ n ↔ a.bits ≤ n * 2 ^ 64 := by
  rw [toReal, div_le_iff₀ (by positivity)]
  exact_mod_cast Iff.rfl

/-- The powers of a number between one and two, to exponents up to one, are between these. -/
theorem power_bounds {a e : I64F64} (ha : 2 ^ 64 ≤ a.bits) (ha' : a.bits ≤ 2 * 2 ^ 64)
    (he : 0 ≤ e.bits) (he' : e.bits ≤ 2 ^ 64) :
    1 ≤ toReal a ^ toReal e ∧ toReal a ^ toReal e ≤ 2 := by
  have hone : 1 ≤ toReal a := by exact_mod_cast (le_toReal 1).mpr (by simpa using ha)
  have htwo : toReal a ≤ 2 := by exact_mod_cast (toReal_le 2).mpr (by simpa using ha')
  have hexp₀ : 0 ≤ toReal e := by exact_mod_cast (le_toReal 0).mpr (by simpa using he)
  have hexp₁ : toReal e ≤ 1 := by exact_mod_cast (toReal_le 1).mpr (by simpa using he')
  refine ⟨Real.one_le_rpow hone hexp₀, ?_⟩
  calc toReal a ^ toReal e ≤ toReal a ^ (1 : ℝ) := Real.rpow_le_rpow_of_exponent_le hone hexp₁
    _ = toReal a := Real.rpow_one _
    _ ≤ 2 := htwo

namespace Economy.Powers
variable (hE : E.Powers) {e : I64F64} (he : 0 ≤ e.bits) (he' : e.bits ≤ 2 ^ 64)
include hE he he'

/-- The power of a number between one and two is between one and three. -/
theorem total {a : I64F64} (ha : 2 ^ 64 ≤ a.bits) (ha' : a.bits ≤ 2 * 2 ^ 64) :
    ∃ y, E.pow a e = some y ∧ 2 ^ 64 ≤ y.bits ∧ y.bits ≤ 3 * 2 ^ 64 := by
  obtain ⟨-, hpow⟩ := power_bounds ha ha' he he'
  cases hy : E.pow a e with
  | none =>
    have hover := hE.overflow ha he hy
    norm_num at hover
    linarith
  | some y =>
    refine ⟨y, rfl, ?_, ?_⟩
    · have hmono := hE.mono (a := Fixed.fromNum 1) (by decide) he (by rwa [fromNum_one])
        (hE.one he) hy
      rwa [fromNum_one] at hmono
    · have hclose := (abs_le.mp (hE.close ha ha' he he' hy)).2
      have hthree : toReal y ≤ (3 : ℕ) := by
        push_cast
        linarith
      exact_mod_cast (toReal_le 3).mp hthree

end Economy.Powers

/-- The annual rate as a number. -/
theorem fraction (annual : Perbill) : ∃ x : I64F64,
    (Fixed.fromNum annual.parts : I64F64).div (Fixed.fromNum (10 ^ 9)) = some x ∧
    x.bits = annual.parts * 2 ^ 64 * 2 ^ 64 / (10 ^ 9 * 2 ^ 64) ∧ 0 ≤ x.bits ∧
    x.bits ≤ 2 ^ 64 := by
  have hle : (annual.parts : ℤ) ≤ 10 ^ 9 := by exact_mod_cast annual.le
  have hparts : (Fixed.fromNum annual.parts : I64F64).bits = annual.parts * 2 ^ 64 :=
    Fixed.fromNum_bits (by decide) (by norm_num; omega)
  have hwhole : (Fixed.fromNum (10 ^ 9) : I64F64).bits = 10 ^ 9 * 2 ^ 64 := by decide
  obtain ⟨x, hx, hbits, hx₀, hx₁⟩ := Fixed.div_of_le (a := (Fixed.fromNum annual.parts : I64F64))
    (b := Fixed.fromNum (10 ^ 9)) (by decide) (by decide) (by omega) (by omega) (by omega)
  rw [hparts, hwhole] at hbits
  exact ⟨x, hx, hbits, hx₀, hx₁⟩

/-- The growth over a round, in parts of a billion. -/
theorem growth {y : I64F64} (h : 2 ^ 64 ≤ y.bits) (h' : y.bits ≤ 3 * 2 ^ 64) :
    ((((y.sub (Fixed.fromNum 1)).mul (Fixed.fromNum (10 ^ 9))).ceil.toNum 32 : ℕ) : ℤ) =
      -(-((y.bits - 2 ^ 64) * 10 ^ 9) / 2 ^ 64) := by
  have hwhole : (Fixed.fromNum (10 ^ 9) : I64F64).bits = 10 ^ 9 * 2 ^ 64 := by decide
  have hsub : (y.sub (Fixed.fromNum 1)).bits = y.bits - 2 ^ 64 := by
    rw [← fromNum_one]
    apply Fixed.wrap_bits (by decide)
    rw [fromNum_one]
    exact ⟨by norm_num; omega, by norm_num; omega⟩
  have hmul : ((y.sub (Fixed.fromNum 1)).mul (Fixed.fromNum (10 ^ 9))).bits =
      (y.bits - 2 ^ 64) * 10 ^ 9 := by
    have hcancel : (y.bits - 2 ^ 64) * (10 ^ 9 * 2 ^ 64) / 2 ^ 64 = (y.bits - 2 ^ 64) * 10 ^ 9 := by
      rw [← Int.mul_assoc, Int.mul_ediv_cancel _ (by norm_num)]
    have hbits : ((y.sub (Fixed.fromNum 1)).bits *
        (Fixed.fromNum (10 ^ 9) : I64F64).bits / 2 ^ 64) = (y.bits - 2 ^ 64) * 10 ^ 9 := by
      rw [hsub, hwhole, hcancel]
    rw [← hbits]
    apply Fixed.wrap_bits (by decide)
    rw [hbits]
    exact ⟨by norm_num; omega, by norm_num; omega⟩
  rw [← hmul]
  apply Fixed.ceil_toNum (by decide) (k := 2 * 10 ^ 9)
  · rw [hmul]
    omega
  · rw [hmul]
    push_cast
    omega
  · norm_num
  · norm_num

/-- A greater annual rate gives no smaller rate of a round. -/
theorem annualToRound_mono (hE : E.Powers) {e : I64F64} (he : 0 ≤ e.bits)
    (he' : e.bits ≤ 2 ^ 64) {a b : Perbill} (h : a.parts ≤ b.parts) :
    ∃ p q, annualToRound E e a = .ok p ∧ annualToRound E e b = .ok q ∧ p.parts ≤ q.parts := by
  have hbase : ∀ x : I64F64, 0 ≤ x.bits → x.bits ≤ 2 ^ 64 →
      ((Fixed.fromNum 1).add x).bits = 2 ^ 64 + x.bits := by
    intro x hx₀ hx₁
    rw [← fromNum_one]
    apply Fixed.wrap_bits (by decide)
    rw [fromNum_one]
    exact ⟨by norm_num; omega, by norm_num; omega⟩
  obtain ⟨x, hx, hxbits, hx₀, hx₁⟩ := fraction a
  obtain ⟨x', hx', hxbits', hx₀', hx₁'⟩ := fraction b
  have hle : x.bits ≤ x'.bits := by
    rw [hxbits, hxbits']
    apply Int.ediv_le_ediv (by norm_num)
    omega
  have hb := hbase x hx₀ hx₁
  have hb' := hbase x' hx₀' hx₁'
  obtain ⟨y, hy, hy₁, hy₃⟩ := hE.total he he' (a := (Fixed.fromNum 1).add x) (by omega) (by omega)
  obtain ⟨z, hz, hz₁, hz₃⟩ := hE.total he he' (a := (Fixed.fromNum 1).add x') (by omega) (by omega)
  have hyz : y.bits ≤ z.bits := hE.mono (by omega) he (by omega) hy hz
  refine ⟨_, _, Exec.bind_eq_ok.mpr ⟨x, Exec.divide_eq_ok.mpr hx, Exec.bind_eq_ok.mpr
    ⟨y, Exec.expect_eq_ok.mpr hy, rfl⟩⟩, Exec.bind_eq_ok.mpr ⟨x', Exec.divide_eq_ok.mpr hx',
    Exec.bind_eq_ok.mpr ⟨z, Exec.expect_eq_ok.mpr hz, rfl⟩⟩, ?_⟩
  have hdiv : -((z.bits - 2 ^ 64) * 10 ^ 9) / 2 ^ 64 ≤ -((y.bits - 2 ^ 64) * 10 ^ 9) / 2 ^ 64 :=
    Int.ediv_le_ediv (by norm_num) (by omega)
  have hy' := growth hy₁ hy₃
  have hz' := growth hz₁ hz₃
  exact min_le_min_right _ (by omega)

/-- The range is a schedule. -/
abbrev Range.Valid (range : Range Perbill) : Prop :=
  range.isValid (fun a b => a.parts ≤ b.parts) = true

theorem Range.valid_iff {range : Range Perbill} :
    range.Valid ↔ range.min.parts ≤ range.ideal.parts ∧ range.ideal.parts ≤ range.max.parts := by
  simp [Range.Valid, Range.isValid, and_comm]

/-- The rates of a round are a schedule where the annual rates are one. -/
theorem perbillAnnualToPerbillRound_ok (hE : E.Powers) {periods : ℕ} (hpos : 0 < periods)
    (hyear : periods ≤ blocksPerYear) (annual : Range Perbill) :
    ∃ round, perbillAnnualToPerbillRound E annual periods = .ok round ∧
      (annual.Valid → round.Valid) := by
  have hyear' : periods ≤ 2629800 := hyear
  have hperiods : (Fixed.fromNum periods : I64F64).bits = periods * 2 ^ 64 :=
    Fixed.fromNum_bits (by decide) (by norm_num; omega)
  obtain ⟨e, hdiv, -, he, he'⟩ := Fixed.div_of_le (a := (Fixed.fromNum 1 : I64F64))
    (b := Fixed.fromNum periods) (by decide) (by decide) (by decide) (by omega)
    (by rw [fromNum_one, hperiods]; omega)
  have hok : ∀ a, ∃ p, annualToRound E e a = .ok p := by
    intro a
    obtain ⟨p, -, hp, -⟩ := annualToRound_mono hE he he' (le_refl a.parts)
    exact ⟨p, hp⟩
  have hmono : ∀ {a b p q}, annualToRound E e a = .ok p → annualToRound E e b = .ok q →
      a.parts ≤ b.parts → p.parts ≤ q.parts := by
    intro a b p q hp hq h
    obtain ⟨p', q', hp', hq', hle⟩ := annualToRound_mono hE he he' h
    obtain rfl := Exec.ok.inj (hp.symm.trans hp')
    obtain rfl := Exec.ok.inj (hq.symm.trans hq')
    exact hle
  obtain ⟨p, hp⟩ := hok annual.min
  obtain ⟨q, hq⟩ := hok annual.ideal
  obtain ⟨r, hr⟩ := hok annual.max
  refine ⟨⟨p, q, r⟩, ?_, ?_⟩
  · unfold perbillAnnualToPerbillRound
    rw [Exec.divide_eq_ok.mpr hdiv, Exec.ok_bind, hp, Exec.ok_bind, hq, Exec.ok_bind, hr]
    rfl
  · intro hvalid
    have ⟨hmin, hmax⟩ := Range.valid_iff.mp hvalid
    exact Range.valid_iff.mpr ⟨hmono hp hq hmin, hmono hq hr hmax⟩

end Rates

section Lengths

/-- A round of the length fits into a year. -/
abbrev InYear (length : ℕ) : Prop := 0 < length ∧ length ≤ blocksPerYear

theorem resetRound_ok (hE : E.Powers) {length : ℕ} (h : InYear length) (config : InflationInfo) :
    ∃ round, config.resetRound E length = .ok { config with round } ∧
      (config.annual.Valid → round.Valid) := by
  obtain ⟨round, hround, hvalid⟩ := perbillAnnualToPerbillRound_ok hE (Nat.div_pos h.2 h.1)
    (Nat.div_le_self blocksPerYear length) config.annual
  refine ⟨round, ?_, hvalid⟩
  exact Exec.bind_eq_ok.mpr ⟨_, Exec.div_eq_ok.mpr ⟨h.1.ne', rfl⟩,
    Exec.bind_eq_ok.mpr ⟨round, hround, rfl⟩⟩

/-- There is no exponent for no rounds. -/
theorem resetRound_stops {length : ℕ} (h : ¬ InYear length) (config : InflationInfo) :
    config.resetRound E length = .trap .divideByZero := by
  by_cases hzero : length = 0
  · exact Exec.bind_eq_trap.mpr (.inl (Exec.div_eq_trap.mpr ⟨hzero, rfl⟩))
  · have hnone : blocksPerYear / length = 0 := Nat.div_eq_of_lt (by unfold InYear at h; omega)
    refine Exec.bind_eq_trap.mpr (.inr ⟨0, Exec.div_eq_ok.mpr ⟨hzero, hnone⟩, ?_⟩)
    rfl

end Lengths

section Steps
variable {s : Storage E}

/-- The length of the rounds that a turn computes the rates of a round with, once it has passed its
checks. -/
def Turn.lengthUsed (s : Storage E) : Turn E → Option ℕ
  | .call .root (.setBlocksPerRound new) =>
    if new ≥ E.minBlocksPerRound ∧ s.round.length ≠ new ∧ new ≥ s.totalSelected then some new
    else none
  | .measure origin (.setInflation schedule) =>
    if E.isMonetaryGovernance origin = true ∧ schedule.Valid ∧
      s.inflationConfig.annual ≠ schedule then some s.round.length
    else none
  | _ => none

/-- The run does not stop. After a success there are rounds in a year, and the rates of a round are
a schedule where the annual rates are one. -/
def Settled (run : Exec DispatchError PUnit × Storage E) : Prop :=
  run.1.Returns ∧ (run.1 = .ok ⟨⟩ →
    (∃ periods, roundsPerYear run.2 = .ok periods ∧ 0 < periods) ∧
    (run.2.inflationConfig.annual.Valid → run.2.inflationConfig.round.Valid))

/-- What is asked of the turns that compute the rates of a round. -/
def Turn.Schedules (s : Storage E) : Turn E → Prop
  | .call origin (.setBlocksPerRound new) =>
    Settled (dispatchCall origin (.setBlocksPerRound new) s)
  | .measure origin (.setInflation schedule) => Settled (setInflation origin schedule s)
  | _ => True

/-- Rates that are computed and then written. -/
def reset (config : InflationInfo) (length : ℕ) : Hook E PUnit := do
  let inflationConfig ← Tx.read fun _ => config.resetRound E length
  Tx.modify fun s => { s with inflationConfig }

theorem settled_reset_iff (hE : E.Powers) (config : InflationInfo) :
    Settled (reset config s.round.length s) ↔ InYear s.round.length := by
  by_cases h : InYear s.round.length
  · obtain ⟨round, hreset, hvalid⟩ := resetRound_ok hE h config
    have hrun : reset config s.round.length s =
        (.ok ⟨⟩, { s with inflationConfig := { config with round } }) :=
      Tx.read_bind_ok.mpr ⟨_, hreset, rfl⟩
    rw [hrun]
    refine iff_of_true ⟨Exec.ok_returns _, fun _ => ⟨?_, hvalid⟩⟩ h
    exact ⟨_, Exec.div_eq_ok.mpr ⟨h.1.ne', rfl⟩, Nat.div_pos h.2 h.1⟩
  · have hrun : (reset config s.round.length s).1 = .trap .divideByZero :=
      Tx.bind_run_trap.mpr (.inl (resetRound_stops h config))
    refine iff_of_false (fun hs => ?_) h
    exact hs.1 _ hrun

/-- A run that ends in an error is settled. -/
theorem settled_of_err {run : Exec DispatchError PUnit × Storage E} {e : DispatchError}
    (h : run.1 = .err e) : Settled run := by
  constructor
  · rw [h]
    exact Exec.err_returns e
  · intro hok
    cases h.symm.trans hok

theorem settled_transactional {x : Hook E PUnit} :
    Settled (Tx.transactional x s) ↔ Settled (x s) := by
  unfold Tx.transactional
  rcases x s with ⟨_ | e | t, s'⟩
  · rfl
  · exact iff_of_true (settled_of_err rfl) (settled_of_err rfl)
  · exact iff_of_false (fun h => h.1 t rfl) (fun h => h.1 t rfl)

theorem setBlocksPerRound_eq_ok {R : Runtime} {origin : Origin R} {new : ℕ} {s s' : State R}
    {u : PUnit} : setBlocksPerRound origin new s = (.ok u, s') ↔ origin = .root ∧
      (new ≥ R.minBlocksPerRound ∧ s.round.length ≠ new ∧ new ≥ s.totalSelected) ∧
      s' = { s with round := { s.round with length := new } } := by
  simp only [setBlocksPerRound, Tx.transactional_run_ok, Tx.read_bind_ok, ensure_bind_ok,
    Tx.modify_ok]
  cases origin with
  | root => simp [RawOrigin.ensureRoot, and_assoc]
  | signed account => simp [RawOrigin.ensureRoot]
  | none => simp [RawOrigin.ensureRoot]

section Inflating
variable {origin : Origin E.toRuntime} {schedule : Range Perbill}

theorem setInflation_of_checks (hgov : E.isMonetaryGovernance origin = true)
    (hvalid : schedule.Valid) (hnew : s.inflationConfig.annual ≠ schedule) :
    setInflation origin schedule s =
      reset { s.inflationConfig with annual := schedule } s.round.length s := by
  have hgov' : (Tx.read fun _ => ensureMonetaryGovernance origin : Hook E PUnit) s =
      (.ok ⟨⟩, s) := by
    rw [Tx.read_run, ensureMonetaryGovernance, if_pos hgov]
  have hcheck : ∀ (p : Storage E → Bool) (e : Error), p s = true →
      ensureWith p e s = (.ok ⟨⟩, s) := by
    intro p e hp
    rw [ensureWith, Tx.read_run, Exec.ensure_eq_ok.mpr hp]
  unfold setInflation
  rw [Tx.bind_run_of_ok hgov', Tx.bind_run_of_ok (hcheck _ _ hvalid),
    Tx.bind_run_of_ok (hcheck _ _ (decide_eq_true hnew))]
  simp only [reset, Tx.bind_run, Tx.bind, Tx.read_run, setRoundFromAnnual_eq]

theorem setInflation_of_fails (h : ¬ (E.isMonetaryGovernance origin = true ∧ schedule.Valid ∧
    s.inflationConfig.annual ≠ schedule)) : ∃ e, (setInflation origin schedule s).1 = .err e := by
  by_cases hgov : E.isMonetaryGovernance origin = true
  · by_cases hvalid : schedule.Valid
    · have hsame : s.inflationConfig.annual = schedule := by tauto
      refine ⟨.module .noWritingSameValue, ?_⟩
      simp [setInflation, ensureMonetaryGovernance, ensureWith, Exec.ensure, Tx.bind_run, Tx.bind,
        hgov, hvalid, hsame]
    · refine ⟨.module .invalidSchedule, ?_⟩
      simp [setInflation, ensureMonetaryGovernance, ensureWith, Exec.ensure, Tx.bind_run, Tx.bind,
        hgov, hvalid]
  · refine ⟨.badOrigin, ?_⟩
    simp [setInflation, ensureMonetaryGovernance, Tx.bind_run, Tx.bind, hgov]

theorem setInflation_settled_iff (hE : E.Powers) : Settled (setInflation origin schedule s) ↔
    ∀ length ∈ (Turn.measure origin (.setInflation schedule)).lengthUsed s, InYear length := by
  by_cases h : E.isMonetaryGovernance origin = true ∧ schedule.Valid ∧
    s.inflationConfig.annual ≠ schedule
  · rw [setInflation_of_checks h.1 h.2.1 h.2.2, settled_reset_iff hE, Turn.lengthUsed, if_pos h]
    simp
  · obtain ⟨e, he⟩ := setInflation_of_fails h
    rw [Turn.lengthUsed, if_neg h]
    exact iff_of_true (settled_of_err he) (by simp)

end Inflating

theorem setBlocksPerRound_settled_iff (hE : E.Powers) {origin : Origin E.toRuntime} {new : ℕ} :
    Settled (dispatchCall origin (.setBlocksPerRound new) s) ↔
      ∀ length ∈ (Turn.call origin (.setBlocksPerRound new)).lengthUsed s, InYear length := by
  apply settled_transactional.trans
  rcases hrun : setBlocksPerRound origin new s.toState with ⟨u | e | t, stakes⟩
  · obtain ⟨rfl, hchecks, rfl⟩ := setBlocksPerRound_eq_ok.mp hrun
    have hstakes : onStakes (setBlocksPerRound .root new) s =
        (.ok u, { s with round := { s.round with length := new } }) :=
      Tx.zoom_run_ok.mpr ⟨_, hrun, rfl⟩
    have hreset := settled_reset_iff (s := { s with round := { s.round with length := new } }) hE
      s.inflationConfig
    rw [Tx.bind_run_of_ok hstakes, Turn.lengthUsed, if_pos hchecks]
    simpa [reset, Tx.bind_run, Tx.bind] using hreset
  · have hnone : (Turn.call origin (.setBlocksPerRound new)).lengthUsed s = none := by
      cases origin with
      | root =>
        apply if_neg
        intro hchecks
        have hok := (setBlocksPerRound_eq_ok (u := ⟨⟩)).mpr ⟨rfl, hchecks, rfl⟩
        cases hrun.symm.trans hok
      | _ => rfl
    rw [hnone]
    have hstakes : onStakes (setBlocksPerRound origin new) s =
        (.err e, { s with toState := stakes }) := by
      simp only [onStakes, Tx.zoom, hrun, Exec.mapErr, id]
    refine iff_of_true (settled_of_err (e := e) ?_) (by simp)
    rw [Tx.bind_run, Tx.bind, hstakes]
  · have htotal : (setBlocksPerRound origin new).Total := setBlocksPerRound_total new
    exact absurd (congrArg Prod.fst hrun) (htotal s.toState t)

/-- A turn settles the rates of a round exactly if it computes them with rounds that fit a year. -/
theorem Turn.schedules_iff (hE : E.Powers) (s : Storage E) (t : Turn E) :
    t.Schedules s ↔ ∀ length ∈ t.lengthUsed s, InYear length := by
  cases t with
  | call origin c =>
    cases c with
    | setBlocksPerRound new => exact setBlocksPerRound_settled_iff hE
    | _ => exact iff_of_true trivial (by cases origin <;> simp [Turn.lengthUsed])
  | measure origin m =>
    cases m with
    | setInflation schedule => exact setInflation_settled_iff hE
    | _ => exact iff_of_true trivial (by simp [Turn.lengthUsed])
  | _ => exact iff_of_true trivial (by simp [Turn.lengthUsed])

end Steps

section Runs
variable {s s' : Storage E}

/-- The hook of a block keeps the length of the rounds. -/
theorem Storage.Opened.length {n : ℕ} (h : Storage.Opened s n s') :
    s'.round.length = s.round.length := by
  have hhandled : ∀ (s : Storage E) (now : ℕ),
      (s.handleDelayedPayouts now).round.length = s.round.length := by
    intro s now
    rcases s.handleDelayedPayouts_cases now with ⟨-, h⟩ | ⟨r, -, h⟩
    · rw [h]
    · obtain ⟨w, -, hstakes⟩ := h.step.stakes
      rw [hstakes]
  cases h with
  | same => exact hhandled s _
  | begins _ hselect =>
    rw [hhandled]
    rfl

/-- A length that leaves no rounds in a year stops the call that sets it. -/
theorem setBlocksPerRound_inYear (hs : InYear s.round.length) (origin : Origin E.toRuntime)
    (new : ℕ) : InYear (dispatchCall origin (.setBlocksPerRound new) s).2.round.length := by
  rcases setBlocksPerRound_cases origin new s with h | ⟨u, stakes, config, hrun, hreset, h⟩
  · rwa [h]
  · obtain ⟨-, -, rfl⟩ := setBlocksPerRound_eq_ok.mp hrun
    rw [h]
    show InYear new
    by_contra hlong
    cases hreset.symm.trans (resetRound_stops hlong _)

theorem Turn.next_inYear (hs : InYear s.round.length) (t : Turn E) :
    InYear (t.next s).round.length := by
  cases t with
  | openBlock n =>
    have hdoes := Turn.does s (.openBlock n)
    generalize Turn.next s (.openBlock n) = s' at hdoes ⊢
    cases hdoes with
    | opens hrun => rwa [(Storage.onInitialize_ok hrun).length]
    | halts => exact hs
  | call origin c =>
    by_cases hnew : ∃ new, c = .setBlocksPerRound new
    · obtain ⟨new, rfl⟩ := hnew
      exact setBlocksPerRound_inYear hs origin new
    · have hround : (c.dispatch origin s.toState).2.round = s.round :=
        c.dispatch_round (fun new h => hnew ⟨new, h⟩) s.toState
      show InYear (dispatchCall origin c s).2.round.length
      rcases dispatchCall_snd origin c s with h | ⟨config, h⟩
      · rwa [h]
      · rwa [h, hround]
  | measure origin m =>
    obtain ⟨config, info, commission, h⟩ := measure_snd origin m s
    show InYear (m.dispatch origin s).2.round.length
    rwa [h]
  | _ => exact hs

/-- The first round has the default length. -/
theorem GenesisConfig.build_length {config : GenesisConfig E} {world : E.World}
    (h : config.build world = .ok s) : s.round.length = E.defaultBlocksPerRound := by
  obtain ⟨stakes, -, hselect⟩ :=
    GenesisConfig.build_ok (I := fun _ => True) (fun _ _ _ _ => trivial) h trivial
  obtain ⟨atStake, selected, rfl⟩ := (Storage.selectTopCandidates_ok hselect).same
  rfl

/-- The rates of a round are settled throughout a run exactly if every length that they are computed
with fits into a year, as the stored one always does where the default does. -/
theorem round_inflation_exact (hE : E.Powers) {config : GenesisConfig E} {world : E.World}
    {s₀ : Storage E} (hbuild : config.build world = .ok s₀) {tr : List (Storage E × Turn E)}
    (h : Turns s₀ tr s) :
    ((∀ x ∈ tr, x.2.Schedules x.1) ↔
      ∀ x ∈ tr, ∀ length ∈ x.2.lengthUsed x.1, InYear length) ∧
    (InYear E.defaultBlocksPerRound → Always (fun s => InYear s.round.length) tr s) := by
  constructor
  · exact forall₂_congr fun x _ => x.2.schedules_iff hE x.1
  · intro hdefault
    apply h.always
    · rwa [GenesisConfig.build_length hbuild]
    · exact fun s t hs _ => Turn.next_inYear hs t

end Runs

section Witness
open Staking.Sample

/-- First powers are exact, and others are rough. -/
theorem economy_powers (sizes : Sizes) : (economy sizes).Powers where
  mono {a b e y z} _ _ h hy hz := by
    by_cases he : e = Fixed.fromNum 1
    · obtain rfl := Option.some.inj ((if_pos he).symm.trans hy)
      obtain rfl := Option.some.inj ((if_pos he).symm.trans hz)
      exact h
    · obtain rfl := Option.some.inj ((if_neg he).symm.trans hy)
      obtain rfl := Option.some.inj ((if_neg he).symm.trans hz)
      exact le_refl _
  overflow {a e} _ _ h := by
    by_cases he : e = Fixed.fromNum 1
    · cases (if_pos he).symm.trans h
    · cases (if_neg he).symm.trans h
  one {e} _ := by
    show (if e = Fixed.fromNum 1 then _ else _) = _
    split_ifs
    · rfl
    · rfl
  close {a e y} ha ha' he he' hy := by
    have hreal : toReal (Fixed.fromNum 1) = 1 := by
      rw [toReal, fromNum_one]
      norm_num
    have ⟨hge, hle⟩ := power_bounds ha ha' he he'
    by_cases hfirst : e = Fixed.fromNum 1
    · obtain rfl := Option.some.inj ((if_pos hfirst).symm.trans hy)
      rw [hfirst, hreal, Real.rpow_one, sub_self, abs_zero]
      exact zero_le_one
    · obtain rfl := Option.some.inj ((if_neg hfirst).symm.trans hy)
      rw [hreal, abs_le]
      constructor
      · linarith
      · linarith

/-- With a round a year, the annual inflation is set, and the rounds get longer. -/
def yearly : List (Turn (economy ⟨1, 2000000, 1, 2⟩)) :=
  [.measure .root (.setInflation ⟨.fromParts _ 10000000, .fromParts _ 20000000,
      .fromParts _ 50000000⟩),
    .openBlock 2000000, .call .root (.setBlocksPerRound 2629800)]

theorem round_inflation_yearly :
    (∀ x ∈ trace Turn.next (genesis 0) yearly, x.2.Schedules x.1) ∧
    Always (fun s => InYear s.round.length) (trace Turn.next (genesis 0) yearly)
      (later 0 yearly) := by
  have hexact := round_inflation_exact (economy_powers _) (build_eq 0)
    (Run.play fun x (_ : x ∈ trace Turn.next (genesis 0) yearly) => trivial)
  exact ⟨hexact.1.mpr (by decide +kernel), hexact.2 (by decide)⟩

/-- A round longer than a year leaves no rounds in it, and the rates are divided by zero. -/
theorem round_inflation_stops : ¬ ∀ E : Economy, E.toRuntime.Lawful → E.toRuntime.Proper →
    E.Powers → ∀ (config : GenesisConfig E) (world : E.World) (s₀ s : Storage E)
      (tr : List (Storage E × Turn E)), config.build world = .ok s₀ → Turns s₀ tr s →
    ∀ x ∈ tr, x.2.Schedules x.1 := by
  intro h
  let turn : Turn (economy ⟨1, 10, 1, 2⟩) := .call .root (.setBlocksPerRound 2629801)
  have hsettled : Settled (dispatchCall .root (.setBlocksPerRound 2629801)
      (genesis 0 : Storage (economy ⟨1, 10, 1, 2⟩))) :=
    h _ (economy_lawful _) (economy_proper (by decide)) (economy_powers _) _ _ _ _ _ (build_eq 0)
      (Run.nil.snoc trivial) (genesis 0, turn) List.mem_cons_self
  have hstops : (dispatchCall .root (.setBlocksPerRound 2629801)
      (genesis 0 : Storage (economy ⟨1, 10, 1, 2⟩))).1 = .trap .divideByZero := by decide +kernel
  exact hsettled.1 _ hstops

end Witness
end Staking
end ZkNft
