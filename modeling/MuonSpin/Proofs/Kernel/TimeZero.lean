import MuonSpin.Proofs.Kernel.Divisor
import MuonSpin.Proofs.Kernel.Pole

/-!
# Polarizations at time zero

A polarization starts at one, whichever of its forms is in use, and where hopping or a table is in use it
is one before.

* `DynamicField.Selected`: the forms, and when each is used; `DynamicField.selected_of_compute`: there are
  no others;
* `kerenFormula_zero`, `Volterra.lookup_solution_zero`: the forms with hopping at time zero;
* `DynamicField.Selected.value_zero`, `DynamicField.Selected.value_of_neg`: the values, form by form;
* **`FieldFamily.startsAtOne`**: every polarization in a longitudinal field.
-/

namespace MuonSpin

open Elementary Volterra

/-! ## The forms -/

namespace DynamicField

section Selected

variable {K : Type} [Field K] [LinearOrder K] [Elementary K]

/-- **The forms of a polarization**, for the field `nu`, the width `rate` and the hopping rate `nuC`. -/
inductive Selected (family : FieldFamily) (nu rate nuC : K) : DynamicField K → Prop where
  /-- Nothing hops. -/
  | static {field : StaticField K} (hzero : nuC = 0)
    (hfield : StaticField.compute family nu rate = some field) :
    Selected family nu rate nuC (.static field)
  /-- Hopping is fast beside the width of a Gaussian distribution. -/
  | keren (hne : nuC ≠ 0) (hgauss : family = .gauss) (hfast : 5.0 * rate < nuC) :
    Selected family nu rate nuC (.keren rate (turn * nu) nuC)
  /-- Hopping is fast beside a Lorentzian distribution, and the slowest mode decays in time. -/
  | pole {field : StaticField K} {gamma : K} (hne : nuC ≠ 0) (hlorentz : family = .lorentz)
    (hfast : hopsFast nu rate nuC = true) (hfield : StaticField.compute family nu rate = some field)
    (hgamma : slowestRate field.value nuC = some gamma) (hdecay : 14.0 ≤ (nuC - gamma) * tableEnd) :
    Selected family nu rate nuC (.pole gamma)
  /-- In any other case the equation is solved. -/
  | solved {table : SampledTable K} (hne : nuC ≠ 0)
    (hsolve : solve family nu rate nuC = some (.solved table)) :
    Selected family nu rate nuC (.solved table)

variable {family : FieldFamily} {nu rate nuC : K} {field : DynamicField K}

theorem exists_table_of_solve (h : solve family nu rate nuC = some field) :
    ∃ table, field = .solved table := by
  obtain ⟨_, -, h⟩ := Option.bind_eq_some_iff.1 h
  obtain ⟨table, -, h⟩ := Option.bind_eq_some_iff.1 h
  exact ⟨table, (Option.some_inj.1 h).symm⟩

theorem Selected.of_solve (hne : nuC ≠ 0) (h : solve family nu rate nuC = some field) :
    Selected family nu rate nuC field := by
  obtain ⟨table, rfl⟩ := exists_table_of_solve h
  exact .solved hne h

theorem Selected.of_poleOrSolve (hne : nuC ≠ 0) (h : poleOrSolve nu rate nuC = some field) :
    Selected .lorentz nu rate nuC field := by
  unfold poleOrSolve at h
  split_ifs at h with hfast
  · obtain ⟨s, hs, h⟩ := Option.bind_eq_some_iff.1 h
    obtain ⟨gamma, hgamma, h⟩ := Option.bind_eq_some_iff.1 h
    split_ifs at h with hdecay
    · cases h
      exact .pole hne rfl hfast hs hgamma hdecay
    · exact .of_solve hne h
  · exact .of_solve hne h

theorem selected_of_compute (h : compute family nu rate nuC = some field) :
    Selected family nu rate nuC field := by
  unfold compute at h
  by_cases hzero : nuC = 0
  · rw [if_pos (beq_iff_eq.2 hzero)] at h
    obtain ⟨s, hs, rfl⟩ := Option.map_eq_some_iff.1 h
    exact .static hzero hs
  · rw [if_neg (beq_iff_eq.not.2 hzero)] at h
    cases family with
    | gauss =>
      dsimp only at h
      split_ifs at h with hfast
      · cases h
        exact .keren hzero rfl hfast
      · exact .of_solve hzero h
    | lorentz => exact .of_poleOrSolve hzero h

variable [FloorRing K] [IsExact K]

theorem exists_compute (family : FieldFamily) (nu rate nuC : K) :
    ∃ field, compute family nu rate nuC = some field := by
  have hsolve : ∀ family, ∃ field, solve family nu rate nuC = some field := by
    intro family
    obtain ⟨s, hs, p0, hp0⟩ := StaticField.exists_compute family nu rate
    exact ⟨_, dynamicField_solve_eq hs hp0 nuC⟩
  obtain ⟨s, hs, p0, hp0⟩ := StaticField.exists_compute family nu rate
  unfold compute
  by_cases hzero : nuC = 0
  · exact ⟨.static s, by rw [if_pos (beq_iff_eq.2 hzero), hs, Option.map_some]⟩
  · rw [if_neg (beq_iff_eq.not.2 hzero)]
    cases family with
    | gauss =>
      dsimp only
      split_ifs
      · exact ⟨_, rfl⟩
      · exact hsolve _
    | lorentz =>
      obtain ⟨gamma, hgamma⟩ := exists_slowestRate hp0 nuC
      simp only [poleOrSolve, hs, hgamma, Option.bind_eq_bind, Option.bind_some]
      split_ifs
      · exact ⟨_, rfl⟩
      · exact hsolve _
      · exact hsolve _

end Selected

end DynamicField

/-! ## Time zero -/

section Zero

variable {K : Type} [Field K] [LinearOrder K] [IsStrictOrderedRing K] [Elementary K]

theorem kerenFormula_zero (hexp : exp (0 : K) = 1) (hcos : cos (0 : K) = 1) (hsin : sin (0 : K) = 0)
    (delta omega nuC : K) : kerenFormula delta omega nuC 0 = 1 := by
  have hone : (1.0 : K) = 1 := by norm_num
  simp only [kerenFormula, mul_zero, hexp, hcos, hsin, hone, mul_one, sub_self, add_zero, neg_zero]

variable [FloorRing K] [IsExact K] {p0 : K → K}

theorem Volterra.lookup_solution_zero (hexp : exp (0 : K) = 1) (p0 : K → K) (nuC : K) {n : ℕ}
    (hn : 0 < n) (before : K) : (solution p0 nuC n).lookup 0 before = some (p0 0) := by
  have hsize : 0 < (solution p0 nuC n).values.size := by
    have hall : (solution p0 nuC n).values.size = n + 1 := size_solution p0 nuC n
    omega
  have hfirst : sequence (solution p0 nuC n).values 0 = p0 0 := by
    rw [← inhomogeneity_zero hexp p0 nuC (tableEnd / (n : K))]
    exact (forward_extends (by simp)).before 0 (by simp)
  rw [sequence_of_lt hsize] at hfirst
  have hdt : 0 < (solution p0 nuC n).dt := by
    rw [dt_solution]
    positivity
  exact SampledTable.lookup_zero (Array.getElem?_eq_some_iff.2 ⟨hsize, hfirst⟩) hdt before

end Zero

/-! ## The polarizations -/

section Values

variable {K : Type} [Field K] [LinearOrder K] [IsStrictOrderedRing K] [Elementary K]
  {family : FieldFamily} {nu rate nuC : K}

theorem SampledTable.lookup_of_neg (table : SampledTable K) {t : K} (ht : t < 0) :
    table.lookup t 1.0 = some 1 := by
  rw [lookup, if_pos ht]
  norm_num

theorem StaticField.value_of_neg {field : StaticField K} (htable : field.table.isSome = true) {t : K}
    (ht : t < 0) : field.value t = some 1 := by
  obtain ⟨table, htable⟩ := Option.isSome_iff_exists.1 htable
  rw [value, htable]
  exact table.lookup_of_neg ht

/-- **With hopping the value is one at all negative times**, in every form; without it, if the static
polarization is a table. -/
theorem DynamicField.Selected.value_of_neg {field : DynamicField K} {s : StaticField K}
    (h : Selected family nu rate nuC field) (hs : StaticField.compute family nu rate = some s)
    (hform : nuC ≠ 0 ∨ s.table.isSome = true) {t : K} (ht : t < 0) : field.value t = some 1 := by
  have hone : (1.0 : K) = 1 := by norm_num
  cases h with
  | static hzero hfield =>
    rw [hfield, Option.some_inj] at hs
    subst hs
    exact StaticField.value_of_neg (hform.resolve_left (not_not_intro hzero)) ht
  | keren => rw [value, if_pos ht, hone]
  | pole => rw [value, if_pos ht, hone]
  | solved => exact SampledTable.lookup_of_neg _ ht

variable [FloorRing K] [IsExact K]

theorem DynamicField.Selected.value_zero (hexp : exp (0 : K) = 1) (hcos : cos (0 : K) = 1)
    (hsin : sin (0 : K) = 0) {field : DynamicField K} (h : Selected family nu rate nuC field) :
    field.value 0 = some 1 := by
  cases h with
  | static _ hfield => exact StaticField.value_zero hexp hfield
  | keren => rw [value, if_neg (lt_irrefl 0), kerenFormula_zero hexp hcos hsin]
  | pole => rw [value, if_neg (lt_irrefl 0), mul_zero, hexp]
  | solved _ hsolve =>
    obtain ⟨s, p0, hs, hp0, hone⟩ := exists_polarization hexp family nu rate
    rw [dynamicField_solve_eq hs hp0, Option.some_inj] at hsolve
    cases hsolve
    have hn : 0 < stepCount family nu rate nuC := by
      have := (stepCount_mem family nu rate nuC).1
      omega
    rw [value, lookup_solution_zero hexp p0 nuC hn, hone]

/-- **Every polarization in a longitudinal field starts at one**, for both families, all fields, all widths
and all hopping rates: there is a static polarization, with the value one at time zero and, if it is a
table, before; and there is a dynamic one, with the value one at time zero and, if anything hops or the
static one is a table, before. -/
theorem FieldFamily.startsAtOne (hexp : exp (0 : K) = 1) (hcos : cos (0 : K) = 1)
    (hsin : sin (0 : K) = 0) (family : FieldFamily) (nu rate nuC : K) :
    ∃ s, StaticField.compute family nu rate = some s ∧ s.value 0 = some 1 ∧
      (s.table.isSome = true → ∀ t < 0, s.value t = some 1) ∧
      ∃ field, DynamicField.compute family nu rate nuC = some field ∧ field.value 0 = some 1 ∧
        (nuC ≠ 0 ∨ s.table.isSome = true → ∀ t < 0, field.value t = some 1) := by
  obtain ⟨s, hs, -⟩ := StaticField.exists_compute family nu rate
  obtain ⟨field, hfield⟩ := DynamicField.exists_compute family nu rate nuC
  have hselected := DynamicField.selected_of_compute hfield
  refine ⟨s, hs, StaticField.value_zero hexp hs, ?_, field, hfield, ?_, ?_⟩
  · exact fun htable t ht => StaticField.value_of_neg htable ht
  · exact hselected.value_zero hexp hcos hsin
  · exact fun hform t ht => hselected.value_of_neg hs hform ht

end Values

/-- An integrated table; the same distribution where its equation is solved; and one with Keren's
formula. -/
theorem FieldFamily.startsAtOne_gauss :
    letI := realScalar
    (∃ field, StaticField.compute .gauss (1 : ℝ) 20 = some field ∧ field.table.isSome = true ∧
      field.value 0 = some 1 ∧ field.value (-1) = some 1) ∧
    (∃ table : SampledTable ℝ, DynamicField.compute .gauss 1 20 1 = some (.solved table) ∧
      table.lookup 0 1 = some 1) ∧
    DynamicField.value (.keren (1 : ℝ) (turn * (1 / 10)) 6) 0 = some 1 ∧
      DynamicField.value (.keren (1 : ℝ) (turn * (1 / 10)) 6) (-1) = some 1 := by
  let := realScalar
  have := isExact_realScalar
  have hone : (1.0 : ℝ) = 1 := by norm_num
  obtain ⟨s, hs, hzero, hbefore, field, hfield, hvalue, -⟩ :=
    FieldFamily.startsAtOne Real.exp_zero Real.cos_zero Real.sin_zero .gauss (1 : ℝ) 20 1
  obtain ⟨_, -, -, -, keren, hkeren, hkeren0, hkerenBefore⟩ :=
    FieldFamily.startsAtOne Real.exp_zero Real.cos_zero Real.sin_zero .gauss (1 / 10 : ℝ) 1 6
  have hform : FieldFamily.gauss.usesZeroField (1 : ℝ) 20 = false := by
    norm_num [FieldFamily.usesZeroField, FieldFamily.zeroFieldRatio]
  have htable : s.table.isSome = true := by
    rw [StaticField.compute_eq, hform, Option.some_inj] at hs
    rw [← hs]
    rfl
  obtain ⟨table, hsolved⟩ :=
    DynamicField.exists_compute_gauss (1 : ℝ) one_pos (by norm_num : (1 : ℝ) ≤ 5 * 20)
  have hfast : DynamicField.compute .gauss (1 / 10 : ℝ) 1 6 = some (.keren 1 (turn * (1 / 10)) 6) := by
    rw [DynamicField.compute, if_neg (by norm_num), if_pos (by norm_num)]
  refine ⟨⟨s, hs, htable, hzero, hbefore htable (-1) (by norm_num)⟩, ⟨table, hsolved, ?_⟩, ?_, ?_⟩
  · rw [hsolved, Option.some_inj] at hfield
    rw [← hvalue, ← hfield, DynamicField.value, hone]
  · rw [hfast, Option.some_inj] at hkeren
    rw [hkeren, hkeren0]
  · rw [hfast, Option.some_inj] at hkeren
    rw [hkeren, hkerenBefore (.inl (by norm_num)) (-1) (by norm_num)]

end MuonSpin
