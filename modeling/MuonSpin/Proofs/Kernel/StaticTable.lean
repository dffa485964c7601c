import Mathlib.Algebra.BigOperators.Intervals
import MuonSpin.Proofs.Kernel.StaticValue

/-!
# The table of the static polarization

The loop carries the integrand at the sample before and the integral up to it. What it appends is the
formula of the family, with the composite trapezoid sum in the place of the integral.

* `trapezoid`: the composite trapezoid sum; `trapezoid_succ`: one more step of it;
* `Integration.Tabulates`: what the samples of an integration are; `tabulates_push`: one more sample,
  `tabulates_extend`: **the loop**, which ends early at the first sample whose remainder is negligible;
* `FieldFamily.integrand`, `FieldFamily.polarization`, `FieldFamily.stopBound`: the formulas of the families;
* **`StaticField.integrate_isIntegrated`**: the table consists of their values.
-/

namespace MuonSpin

open Elementary

/-! ## The trapezoid rule -/

section Trapezoid

variable {K : Type} [Field K]

/-- **The composite trapezoid sum** of a function over the first `i` steps of width `dt`: the points between
have the whole weight, the two ends half of it. Over no step it is zero. -/
def trapezoid (f : K → K) (dt : K) : ℕ → K
  | 0 => 0
  | i + 1 =>
    dt * (0.5 * f 0 + ∑ k ∈ Finset.Ico 1 (i + 1), f (k * dt) + 0.5 * f ((i + 1 : ℕ) * dt))

theorem trapezoid_of_pos (f : K → K) (dt : K) {i : ℕ} (h : 0 < i) :
    trapezoid f dt i = dt * (0.5 * f 0 + ∑ k ∈ Finset.Ico 1 i, f (k * dt) + 0.5 * f (i * dt)) := by
  cases i with
  | zero => exact absurd h (lt_irrefl 0)
  | succ i => rfl

theorem trapezoid_succ [CharZero K] (f : K → K) (dt : K) (i : ℕ) :
    trapezoid f dt (i + 1) = trapezoid f dt i + 0.5 * dt * (f (i * dt) + f ((i + 1 : ℕ) * dt)) := by
  have hhalf : (0.5 : K) = 1 / 2 := by norm_num
  rw [hhalf]
  cases i with
  | zero =>
    simp only [trapezoid, Finset.Ico_self, Finset.sum_empty, Nat.cast_zero, zero_mul]
    ring
  | succ i =>
    rw [trapezoid, trapezoid, Finset.sum_Ico_succ_top (Nat.le_add_left 1 i)]
    ring

theorem trapezoid_linear [CharZero K] (a b : K) (f g : K → K) (dt : K) (i : ℕ) :
    trapezoid (fun t => a * f t + b * g t) dt i = a * trapezoid f dt i + b * trapezoid g dt i := by
  induction i with
  | zero => simp [trapezoid]
  | succ i ih =>
    rw [trapezoid_succ, trapezoid_succ, trapezoid_succ, ih]
    ring

theorem trapezoid_mono [LinearOrder K] [IsStrictOrderedRing K] {f g : K → K} {dt : K} (hdt : 0 ≤ dt)
    (h : ∀ t, 0 ≤ t → f t ≤ g t) (i : ℕ) : trapezoid f dt i ≤ trapezoid g dt i := by
  induction i with
  | zero => exact le_rfl
  | succ i ih =>
    have hleft := h (i * dt) (by positivity)
    have hright := h ((i + 1 : ℕ) * dt) (by positivity)
    have hhalf : (0 : K) ≤ 0.5 * dt := mul_nonneg (by norm_num) hdt
    rw [trapezoid_succ, trapezoid_succ]
    exact add_le_add ih (mul_le_mul_of_nonneg_left (add_le_add hleft hright) hhalf)

end Trapezoid

/-! ## The loop -/

namespace Integration

section Loop

variable {K : Type} [Field K] [LinearOrder K] {f : Integration K} {dt : K} {samples : Array K}
  {i count : ℕ}

/-- The polarization at a grid point, with the trapezoid sum up to it. -/
def sampleAt (f : Integration K) (dt : K) (i : ℕ) : K :=
  f.polarization (i * dt) (f.envelope (i * dt)) (trapezoid f.integrand dt i)

/-- What is left of the time dependence at a grid point. -/
def remainderAt (f : Integration K) (dt : K) (i : ℕ) : K := f.remainder (f.envelope (i * dt))

/-- The samples of an integration: one, and then the polarizations at the grid points, where up to the last
of them the remainder is not negligible. -/
structure Tabulates (f : Integration K) (dt : K) (samples : Array K) : Prop where
  first : samples[0]? = some 1
  sample : ∀ i (hi : i < samples.size), 0 < i → samples[i] = f.sampleAt dt i
  before : ∀ i, 0 < i → i + 1 < samples.size → negligible ≤ f.remainderAt dt i

theorem tabulates_push (h : Tabulates f dt samples) (hsize : samples.size = i + 1)
    (hopen : 0 < i → negligible ≤ f.remainderAt dt i) :
    Tabulates f dt (samples.push (f.sampleAt dt (i + 1))) := by
  constructor
  · rw [Array.getElem?_push, if_neg (by omega), h.first]
  · intro k hk hpos
    rw [Array.size_push] at hk
    rw [Array.getElem_push]
    split_ifs with hold
    · exact h.sample k hold hpos
    · rw [show k = i + 1 by omega]
  · intro k hpos hk
    rw [Array.size_push] at hk
    rcases eq_or_ne k i with rfl | hne
    · exact hopen hpos
    · exact h.before k hpos (by omega)

variable [CharZero K]

theorem tabulates_one (f : Integration K) (dt : K) : Tabulates f dt #[1.0] := by
  refine ⟨by norm_num, fun i hi hpos => ?_, fun i hpos hi => ?_⟩
  · have hsize : i < 1 := hi
    omega
  · have hsize : i + 1 < 1 := hi
    omega

/-- One round of the loop appends the sample of its grid point, and is the last one if the remainder is
negligible there. -/
theorem extend_succ (f : Integration K) (dt : K) (count i : ℕ) (samples : Array K) :
    f.extend dt (count + 1) (i + 1) (f.integrand (i * dt)) (trapezoid f.integrand dt i) samples =
      if f.remainderAt dt (i + 1) < negligible then samples.push (f.sampleAt dt (i + 1))
      else f.extend dt count (i + 1 + 1) (f.integrand ((i + 1 : ℕ) * dt))
        (trapezoid f.integrand dt (i + 1)) (samples.push (f.sampleAt dt (i + 1))) := by
  rw [extend, ← trapezoid_succ]
  rfl

/-- **The loop** makes the samples of the integration, at most as many as it is asked for. If it makes
fewer, the remainder at the last one is negligible. -/
theorem tabulates_extend (h : Tabulates f dt samples) (hsize : samples.size = i + 1)
    (hopen : 0 < i → negligible ≤ f.remainderAt dt i) {table : Array K}
    (htable : f.extend dt count (i + 1) (f.integrand (i * dt)) (trapezoid f.integrand dt i) samples =
      table) :
    Tabulates f dt table ∧ table.size ≤ i + 1 + count ∧
      (table.size < i + 1 + count →
        i + 1 < table.size ∧ f.remainderAt dt (table.size - 1) < negligible) := by
  induction count generalizing i samples with
  | zero =>
    subst htable
    exact ⟨h, hsize.le, fun hlt => absurd hsize hlt.ne⟩
  | succ count ih =>
    have hpush := tabulates_push h hsize hopen
    have hmore : (samples.push (f.sampleAt dt (i + 1))).size = i + 1 + 1 := by
      rw [Array.size_push, hsize]
    rw [extend_succ] at htable
    split_ifs at htable with hstop
    · subst htable
      refine ⟨hpush, by omega, fun _ => ⟨by omega, ?_⟩⟩
      rwa [hmore]
    · obtain ⟨hall, hle, hlast⟩ := ih hpush hmore (fun _ => not_lt.1 hstop) htable
      refine ⟨hall, by omega, fun hlt => ?_⟩
      obtain ⟨hbehind, hnegligible⟩ := hlast (by omega)
      exact ⟨by omega, hnegligible⟩

theorem tabulates_samples (f : Integration K) (dt : K) (n : ℕ) :
    Tabulates f dt (f.samples dt (n + 1)) ∧ (f.samples dt (n + 1)).size ≤ n + 1 ∧
      ((f.samples dt (n + 1)).size < n + 1 → 1 < (f.samples dt (n + 1)).size ∧
        f.remainderAt dt ((f.samples dt (n + 1)).size - 1) < negligible) := by
  have hstart : f.extend dt n (0 + 1) (f.integrand ((0 : ℕ) * dt)) (trapezoid f.integrand dt 0)
      #[1.0] = f.samples dt (n + 1) := by
    rw [Nat.cast_zero, zero_mul]
    rfl
  have h := tabulates_extend (i := 0) (tabulates_one f dt) rfl (fun hpos => absurd hpos (lt_irrefl 0))
    hstart
  rwa [Nat.zero_add, Nat.add_comm 1 n] at h

end Loop

end Integration

/-! ## The formulas -/

section Formulas

variable {K : Type} [Field K] [LinearOrder K] [Elementary K]

/-- The spherical Bessel function of order zero outside the integral, with its limit near zero. -/
def outerJ0 (x : K) : K := if |x| < 0.001 then 1 else sphericalJ0 x

/-- The spherical Bessel function of order one outside the integral, with its limit near zero. -/
def outerJ1 (x : K) : K := if |x| < 0.001 then 0 else sphericalJ1 x

namespace FieldFamily

/-- What is integrated: `exp(-Δ²s²/2) sin ωs`, or `j₀(ωs) exp(-as)`. -/
def integrand (family : FieldFamily) (nu rate s : K) : K :=
  match family with
  | gauss => exp (-0.5 * rate ^ 2 * s ^ 2) * sin (turn * nu * s)
  | lorentz => sphericalJ0 (turn * nu * s) * exp (-(rate * s))

/-- The polarization at time `tau`, with the integral up to this time:
`1 - 2(Δ/ω)² (1 - exp(-Δ²τ²/2) cos ωτ) + 2Δ⁴/ω³ I`, or
`1 - (a/ω) j₁(ωτ) exp(-aτ) - (a/ω)² (j₀(ωτ) exp(-aτ) - 1) - a (1 + (a/ω)²) I`. -/
def polarization (family : FieldFamily) (nu rate tau integral : K) : K :=
  let omega := turn * nu
  match family with
  | gauss =>
    1 - 2.0 * (rate / omega) ^ 2 * (1 - exp (-0.5 * rate ^ 2 * tau ^ 2) * cos (omega * tau))
      + 2.0 * rate ^ 4 / omega ^ 3 * integral
  | lorentz =>
    1 - rate / omega * outerJ1 (omega * tau) * exp (-(rate * tau))
      - (rate / omega) ^ 2 * (outerJ0 (omega * tau) * exp (-(rate * tau)) - 1)
      - rate * (1 + (rate / omega) ^ 2) * integral

/-- The envelope of the polarization times the factors of what it damps, one step of the integral
included. -/
def stopBound (family : FieldFamily) (nu rate dt tau : K) : K :=
  let omega := turn * nu
  match family with
  | gauss =>
    exp (-0.5 * rate ^ 2 * tau ^ 2) * (2.0 * (rate / omega) ^ 2 + 2.0 * rate ^ 4 / omega ^ 3 * dt)
  | lorentz =>
    exp (-(rate * tau)) *
      (rate / omega + (rate / omega) ^ 2 + rate * (1 + (rate / omega) ^ 2) * dt)

/-- The integration of a family. -/
def integration (family : FieldFamily) (nu rate dt : K) : Integration K :=
  match family with
  | gauss => .gauss nu rate dt
  | lorentz => .lorentz nu rate dt

theorem integrate_eq (family : FieldFamily) (nu rate dt : K) (size : ℕ) :
    StaticField.integrate family nu rate dt size = (family.integration nu rate dt).samples dt size := by
  cases family <;> rfl

variable [CharZero K]

omit [LinearOrder K] [Elementary K] in
theorem gaussExponent_eq (rate s : K) : -0.5 * (rate * rate) * s * s = -0.5 * rate ^ 2 * s ^ 2 := by
  ring

theorem integration_integrand (family : FieldFamily) (nu rate dt : K) :
    (family.integration nu rate dt).integrand = family.integrand nu rate := by
  funext s
  cases family with
  | gauss => simp only [integration, Integration.gauss, integrand, gaussExponent_eq]
  | lorentz => simp only [integration, Integration.lorentz, integrand, neg_mul]

theorem integration_remainderAt (family : FieldFamily) (nu rate dt : K) (i : ℕ) :
    (family.integration nu rate dt).remainderAt dt i = family.stopBound nu rate dt (i * dt) := by
  have hone : (1.0 : K) = 1 := by norm_num
  have htwo : (2.0 : K) = 2 := by norm_num
  rw [Integration.remainderAt]
  cases family with
  | gauss =>
    simp only [integration, Integration.gauss, stopBound, gaussExponent_eq, htwo, cube]
    ring
  | lorentz =>
    simp only [integration, Integration.lorentz, stopBound, hone, neg_mul]
    ring

variable [FloorRing K] [IsExact K]

omit [CharZero K] in
theorem besselPair_eq (x : K) : Integration.besselPair x = (outerJ0 x, outerJ1 x) := by
  have hone : (1.0 : K) = 1 := by norm_num
  rw [Integration.besselPair, IsExact.abs_eq, outerJ0, outerJ1, hone]
  split_ifs <;> rfl

/-- **The samples of the program** are the formulas of the families. -/
theorem integration_sampleAt (family : FieldFamily) (nu rate dt : K) (i : ℕ) :
    (family.integration nu rate dt).sampleAt dt i =
      family.polarization nu rate (i * dt) (trapezoid (family.integrand nu rate) dt i) := by
  have hone : (1.0 : K) = 1 := by norm_num
  have htwo : (2.0 : K) = 2 := by norm_num
  rw [Integration.sampleAt, integration_integrand]
  cases family with
  | gauss =>
    simp only [integration, Integration.gauss, polarization, gaussExponent_eq, hone, htwo, cube]
    ring
  | lorentz =>
    simp only [integration, Integration.lorentz, polarization, besselPair_eq, hone, neg_mul]
    ring

variable [IsStrictOrderedRing K]

omit [CharZero K] [FloorRing K] [IsExact K] in
theorem polarization_zero (hexp : exp (0 : K) = 1) (hcos : cos (0 : K) = 1) (family : FieldFamily)
    (nu rate : K) : family.polarization nu rate 0 0 = 1 := by
  have hnear : (0 : K) < 0.001 := by norm_num
  cases family with
  | gauss => simp [polarization, hexp, hcos]
  | lorentz => simp [polarization, outerJ0, outerJ1, hexp, hnear]

end FieldFamily

end Formulas

/-! ## The table -/

section Table

variable {K : Type} [Field K] [LinearOrder K] [FloorRing K] [Elementary K]

/-- **The integrated polarization** on a grid of width `dt` over twenty microseconds. There is a sample for
every grid point, unless the table ends before, at the first integrated sample whose stop bound is
negligible. The samples are the formula with the trapezoid sum in the place of the integral; at time zero,
where nothing is integrated, the sample is one, which the formula is for the exponential function and the
cosine. -/
structure FieldFamily.IsIntegrated (family : FieldFamily) (nu rate dt : K) (values : Array K) : Prop where
  size_le : values.size ≤ nearest (20 / dt) + 1
  first : values[0]? = some 1
  sample : ∀ i (hi : i < values.size), 0 < i ∨ exp (0 : K) = 1 ∧ cos (0 : K) = 1 →
    values[i] = family.polarization nu rate (i * dt) (trapezoid (family.integrand nu rate) dt i)
  before : ∀ i, 0 < i → i + 1 < values.size → 1e-10 ≤ family.stopBound nu rate dt (i * dt)
  stop : values.size < nearest (20 / dt) + 1 →
    IsLeast {i : ℕ | 0 < i ∧ family.stopBound nu rate dt (i * dt) < 1e-10} (values.size - 1)

variable [IsExact K] [IsStrictOrderedRing K]

theorem gridSize?_eq {dt : K} (hdt : 0 < dt) : gridSize? dt = some (nearest (20 / dt) + 1) := by
  have hend : (tableEnd : K) = 20 := by norm_num [tableEnd]
  have hnonneg : 0 ≤ 20 / dt := by positivity
  rw [gridSize?, hend, round_of_nonneg hnonneg, toIndex_natCast, successor?_eq]

namespace StaticField

theorem isIntegrated_integrate (family : FieldFamily) (nu rate dt : K) :
    family.IsIntegrated nu rate dt (integrate family nu rate dt (nearest (20 / dt) + 1)) := by
  obtain ⟨⟨hfirst, hsample, hbefore⟩, hle, hlast⟩ :=
    Integration.tabulates_samples (family.integration nu rate dt) dt (nearest (20 / dt))
  rw [← family.integrate_eq] at hfirst hle hlast
  simp only [← family.integrate_eq, family.integration_sampleAt] at hsample
  simp only [← family.integrate_eq, family.integration_remainderAt] at hbefore hlast
  refine ⟨hle, hfirst, fun i hi hstart => ?_, hbefore, fun hshort => ?_⟩
  · rcases Nat.eq_zero_or_pos i with rfl | hpos
    · obtain ⟨hexp, hcos⟩ := hstart.resolve_left (lt_irrefl 0)
      rw [Array.getElem?_eq_getElem hi, Option.some_inj] at hfirst
      rw [hfirst, Nat.cast_zero, zero_mul, trapezoid, family.polarization_zero hexp hcos]
    · exact hsample i hi hpos
  · obtain ⟨hmore, hnegligible⟩ := hlast hshort
    refine ⟨⟨by omega, hnegligible⟩, fun i hi => ?_⟩
    by_contra hlt
    exact absurd hi.2 (not_lt.2 (hbefore i hi.1 (by omega)))

/-- **The table of the static polarization**: for both families, and on a grid of any width, the samples
are the values of the formula, and the table ends early at the first one whose stop bound is negligible.
Wherever the polarization is tabulated, its table is the one on the grid of the program. -/
theorem integrate_isIntegrated (family : FieldFamily) (nu rate : K) :
    (∀ dt, 0 < dt → ∃ size, gridSize? dt = some size ∧
      family.IsIntegrated nu rate dt (integrate family nu rate dt size)) ∧
    (family.usesZeroField nu rate = false →
      ∃ table : SampledTable K, compute family nu rate = some ⟨family, rate, some table⟩ ∧
        table.dt = stepWidth nu rate ∧ 0 < table.dt ∧
        family.IsIntegrated nu rate table.dt table.values) := by
  refine ⟨fun dt hdt => ⟨_, gridSize?_eq hdt, isIntegrated_integrate family nu rate dt⟩,
    fun hform => ?_⟩
  have hdt := stepWidth_pos hform
  have htable := isIntegrated_integrate family nu rate (stepWidth nu rate)
  refine ⟨⟨stepWidth nu rate, integrate family nu rate (stepWidth nu rate)
    (nearest (20 / stepWidth nu rate) + 1)⟩, ?_, rfl, hdt, htable⟩
  unfold compute
  simp only [hform, gridSize?_eq hdt]
  rfl

end StaticField

end Table

/-- Ten microseconds behind the start of a wide distribution nothing is left of the envelope. -/
theorem stopBound_wide_lt :
    letI := realScalar
    FieldFamily.gauss.stopBound (1 : ℝ) 20 (1 / 60000) 10 < 1e-10 := by
  have hgrowth : (5001 : ℝ) ^ 4 ≤ Real.exp 20000 := by
    have hle : (5001 : ℝ) ≤ Real.exp 5000 := by linarith [Real.add_one_le_exp (5000 : ℝ)]
    calc (5001 : ℝ) ^ 4 ≤ Real.exp 5000 ^ 4 := pow_le_pow_left₀ (by norm_num) hle 4
      _ = Real.exp 20000 := by
          rw [← Real.exp_nat_mul]
          norm_num
  have henvelope : Real.exp (-0.5 * 20 ^ 2 * 10 ^ 2) ≤ 1 / 5001 ^ 4 := by
    rw [show (-0.5 * 20 ^ 2 * 10 ^ 2 : ℝ) = -20000 by norm_num, Real.exp_neg, ← one_div]
    exact one_div_le_one_div_of_le (by norm_num) hgrowth
  have hfactor : (0 : ℝ) ≤ 2.0 * (20 / (turn * 1)) ^ 2 + 2.0 * 20 ^ 4 / (turn * 1) ^ 3 * (1 / 60000) := by
    norm_num [turn]
  refine (mul_le_mul_of_nonneg_right henvelope hfactor).trans_lt ?_
  norm_num [turn]

/-- A wide distribution, whose table ends in the first half of the twenty microseconds. -/
theorem StaticField.integrate_isIntegrated_wide :
    letI := realScalar
    ∃ table : SampledTable ℝ,
      StaticField.compute .gauss 1 20 = some ⟨.gauss, 20, some table⟩ ∧
      table.dt = 1 / 60000 ∧ 1 < table.values.size ∧ table.values.size ≤ 600001 ∧
      table.values[0]? = some 1 ∧
      FieldFamily.gauss.stopBound 1 20 table.dt ((table.values.size - 1 : ℕ) * table.dt) < 1e-10 := by
  let := realScalar
  have := isExact_realScalar
  have hform : FieldFamily.gauss.usesZeroField (1 : ℝ) 20 = false := by
    norm_num [FieldFamily.usesZeroField, FieldFamily.zeroFieldRatio]
  have hwidth : stepWidth (1 : ℝ) 20 = 1 / 60000 := by
    norm_num [stepWidth]
  obtain ⟨table, htable, hdt, -, htabulated⟩ :=
    (StaticField.integrate_isIntegrated .gauss (1 : ℝ) 20).2 hform
  rw [hwidth] at hdt
  have hgrid : nearest (20 / table.dt) = 1200000 := by
    have hsteps : (20 : ℝ) / (1 / 60000) = (1200000 : ℕ) := by norm_num
    rw [hdt, hsteps]
    exact nearest_eq (by norm_num)
  have hbound : FieldFamily.gauss.stopBound 1 20 table.dt ((600000 : ℕ) * table.dt) < 1e-10 := by
    have htime : ((600000 : ℕ) : ℝ) * (1 / 60000) = 10 := by norm_num
    rw [hdt, htime]
    exact stopBound_wide_lt
  have hsize : table.values.size ≤ 600001 := by
    by_contra hlong
    exact absurd (htabulated.before 600000 (by norm_num) (not_le.1 hlong)) (not_le.2 hbound)
  have hshort : table.values.size < nearest (20 / table.dt) + 1 := by
    rw [hgrid]
    exact hsize.trans_lt (by norm_num)
  obtain ⟨⟨hpos, hlast⟩, -⟩ := htabulated.stop hshort
  exact ⟨table, htable, hdt, Nat.lt_of_sub_pos hpos, hsize, htabulated.first, hlast⟩

end MuonSpin
