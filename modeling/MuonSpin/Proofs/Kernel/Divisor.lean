import MuonSpin.Proofs.Kernel.Volterra

/-!
# The divisor of the Volterra equation

Each step of the solution is divided by what its own part of the integral leaves of the unknown.

* `DynamicField.solve_of_compute`: where the equation is solved;
* `ten_mul_lt_stepCount_iff`: how many steps there are to a hop;
* **`DynamicField.divisor_pos_iff`**: the divisor is positive up to a hopping rate of a hundred thousand;
  `DynamicField.exists_divisor_not_pos`: there the million steps do not suffice.
-/

namespace MuonSpin

open Elementary Volterra

namespace DynamicField

section Solved

variable {K : Type} [Add K] [Sub K] [Mul K] [Neg K] [Div K] [Zero K] [NatCast K] [OfScientific K]
  [LT K] [DecidableLT K] [LE K] [DecidableLE K] [BEq K] [Elementary K]
  {family : FieldFamily} {nu rate nuC : K} {table : SampledTable K}

theorem solve_of_poleOrSolve (h : poleOrSolve nu rate nuC = some (.solved table)) :
    solve .lorentz nu rate nuC = some (.solved table) := by
  unfold poleOrSolve at h
  split_ifs at h
  · obtain ⟨field, -, h⟩ := Option.bind_eq_some_iff.1 h
    obtain ⟨gamma, -, h⟩ := Option.bind_eq_some_iff.1 h
    split_ifs at h
    · cases h
    · exact h
  · exact h

theorem solve_of_compute (h : compute family nu rate nuC = some (.solved table)) :
    solve family nu rate nuC = some (.solved table) := by
  have hstatic : (StaticField.compute family nu rate).map static ≠ some (.solved table) := by
    intro hmap
    obtain ⟨field, -, hform⟩ := Option.map_eq_some_iff.1 hmap
    cases hform
  cases family with
  | gauss =>
    unfold compute at h
    dsimp only at h
    split_ifs at h
    · exact absurd h hstatic
    · cases h
    · exact h
  | lorentz =>
    unfold compute at h
    dsimp only at h
    split_ifs at h
    · exact absurd h hstatic
    · exact solve_of_poleOrSolve h

end Solved

end DynamicField

/-! ## The sign of the divisor -/

section Divisor

variable {K : Type} [Field K] [LinearOrder K] [FloorRing K] [Elementary K]
  {family : FieldFamily} {nu rate nuC : K} {p0 : K → K}

variable [IsExact K]

theorem DynamicField.exists_compute_gauss (nu : K) (hnuC : 0 < nuC) (hle : nuC ≤ 5 * rate) :
    ∃ table, DynamicField.compute .gauss nu rate nuC = some (.solved table) := by
  obtain ⟨field, hfield, p0, hvalue⟩ := StaticField.exists_compute .gauss nu rate
  have hslow : ¬ (5.0 : K) * rate < nuC := by
    norm_num
    exact hle
  refine ⟨solution p0 nuC (stepCount .gauss nu rate nuC), ?_⟩
  rw [DynamicField.compute, if_neg (by simpa using hnuC.ne'), if_neg hslow]
  exact dynamicField_solve_eq hfield hvalue nuC

variable [IsStrictOrderedRing K]

/-- There are more than ten steps to a hop, unless hopping is too fast for a million of them. -/
theorem ten_mul_lt_stepCount_iff (hnuC : 0 < nuC) :
    10 * nuC < stepCount family nu rate nuC ↔ nuC < 100000 := by
  constructor
  · intro hlt
    have hle : (stepCount family nu rate nuC : K) ≤ 1000000 := by
      exact_mod_cast (stepCount_mem family nu rate nuC).2
    linarith
  · intro hlt
    refine lt_of_lt_of_le (lt_min ?_ ?_) (le_stepCount family nu rate nuC) <;> linarith

theorem divisor_pos_iff_of_one (hone : p0 0 = 1) (hnuC : 0 < nuC) :
    0 < 1 - 20 / stepCount family nu rate nuC * nuC * p0 0 / 2 ↔ nuC < 100000 := by
  have hpos : (0 : K) < stepCount family nu rate nuC := by
    have := (stepCount_mem family nu rate nuC).1
    exact_mod_cast (by omega : 0 < stepCount family nu rate nuC)
  have hdivisor : 1 - 20 / stepCount family nu rate nuC * nuC * p0 0 / 2 =
      (stepCount family nu rate nuC - 10 * nuC) / stepCount family nu rate nuC := by
    rw [hone]
    field_simp
    ring
  rw [hdivisor, div_pos_iff_of_pos_right hpos, sub_pos, ten_mul_lt_stepCount_iff hnuC]

theorem exists_polarization (hexp : exp (0 : K) = 1) (family : FieldFamily) (nu rate : K) :
    ∃ (field : StaticField K) (p0 : K → K), StaticField.compute family nu rate = some field ∧
      (∀ t, field.value t = some (p0 t)) ∧ p0 0 = 1 := by
  obtain ⟨field, hfield, p0, hvalue⟩ := StaticField.exists_compute family nu rate
  refine ⟨field, p0, hfield, hvalue, ?_⟩
  rw [← Option.some_inj, ← hvalue 0, StaticField.value_zero hexp hfield]

/-- **The divisor of the equation**, wherever it is solved: the static polarization is one at time zero,
and the divisor is positive if and only if the hopping rate is below a hundred thousand. There are no
more than a million steps, and from there on the equation would need more. -/
theorem DynamicField.divisor_pos_iff (hexp : exp (0 : K) = 1) {table : SampledTable K}
    (hnuC : 0 < nuC) (h : DynamicField.compute family nu rate nuC = some (.solved table)) :
    ∃ (field : StaticField K) (p0 : K → K), StaticField.compute family nu rate = some field ∧
      (∀ t, field.value t = some (p0 t)) ∧
      Volterra.solve field.value nuC (stepCount family nu rate nuC) = some table ∧
      table.dt = 20 / stepCount family nu rate nuC ∧
      Volterra.norm (table.dt * nuC) (inhomogeneity p0 nuC table.dt 0) =
        1 - table.dt * nuC * p0 0 / 2 ∧
      p0 0 = 1 ∧
      (0 < 1 - table.dt * nuC * p0 0 / 2 ↔ nuC < 100000) := by
  obtain ⟨field, p0, hfield, hvalue, hone⟩ := exists_polarization hexp family nu rate
  have hsolve := solve_eq hvalue nuC (stepCount family nu rate nuC)
  have htable := DynamicField.solve_of_compute h
  rw [dynamicField_solve_eq hfield hvalue, Option.some_inj] at htable
  cases htable
  have hdt : (solution p0 nuC (stepCount family nu rate nuC)).dt =
      20 / stepCount family nu rate nuC := dt_solution p0 nuC _
  refine ⟨field, p0, hfield, hvalue, hsolve, hdt, ?_, hone, ?_⟩
  · rw [norm_eq, inhomogeneity_zero hexp]
  · rw [hdt]
    exact divisor_pos_iff_of_one hone hnuC

end Divisor

/-- One hop in a microsecond. -/
theorem DynamicField.divisor_pos_iff_slow :
    letI := realScalar
    ∃ (table : SampledTable ℝ) (field : StaticField ℝ) (p0 : ℝ → ℝ),
      DynamicField.compute .gauss 0 1 1 = some (.solved table) ∧
      StaticField.compute .gauss 0 1 = some field ∧ (∀ t, field.value t = some (p0 t)) ∧
      0 < 1 - table.dt * 1 * p0 0 / 2 := by
  let := realScalar
  have := isExact_realScalar
  obtain ⟨table, htable⟩ :=
    DynamicField.exists_compute_gauss (0 : ℝ) one_pos (by norm_num : (1 : ℝ) ≤ 5 * 1)
  obtain ⟨field, p0, hfield, hvalue, -, -, -, -, hsign⟩ :=
    DynamicField.divisor_pos_iff Real.exp_zero one_pos htable
  exact ⟨table, field, p0, htable, hfield, hvalue, hsign.2 (by norm_num)⟩

/-- **Two hundred thousand hops in a microsecond**: the equation is solved, with a negative divisor. -/
theorem DynamicField.exists_divisor_not_pos :
    letI := realScalar
    ∃ (table : SampledTable ℝ) (field : StaticField ℝ) (p0 : ℝ → ℝ),
      DynamicField.compute .gauss 0 100000 200000 = some (.solved table) ∧
      StaticField.compute .gauss 0 100000 = some field ∧ (∀ t, field.value t = some (p0 t)) ∧
      1 - 20 / stepCount .gauss (0 : ℝ) 100000 200000 * 200000 * p0 0 / 2 = -1 := by
  let := realScalar
  have := isExact_realScalar
  obtain ⟨table, htable⟩ :=
    DynamicField.exists_compute_gauss (0 : ℝ) (by norm_num)
      (by norm_num : (200000 : ℝ) ≤ 5 * 100000)
  obtain ⟨field, p0, hfield, hvalue, hone⟩ :=
    exists_polarization Real.exp_zero .gauss (0 : ℝ) 100000
  refine ⟨table, field, p0, htable, hfield, hvalue, ?_⟩
  rw [stepCount_of_le (by norm_num), hone]
  norm_num

end MuonSpin
