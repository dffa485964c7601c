import MuonSpin.Kernel.StaticField
import MuonSpin.Proofs.Numeric.Interpolation

/-!
# Values of the static polarization

In exact arithmetic no index runs out, so that the static polarization has a value at every time.

* `SampledTable.exists_lookup`: a table can be read at every time;
* `StaticField.exists_compute`: **the static polarization exists**, and is a function of the time;
* `StaticField.value_zero`: **it starts at one**, in either form.
-/

namespace MuonSpin

open Elementary

variable {K : Type} [Field K] [LinearOrder K] [FloorRing K] [Elementary K] [IsExact K]

theorem SampledTable.exists_lookup (table : SampledTable K) (t before : K) :
    ∃ v, table.lookup t before = some v := by
  have hposition : ∀ last x, ∃ v, atPosition table.values last x = some v := by
    intro last x
    unfold atPosition
    dsimp only
    split_ifs
    · exact ⟨_, rfl⟩
    · rw [successor?_eq]
      dsimp only
      split <;> exact ⟨_, rfl⟩
  unfold lookup
  cases table.values.back? with
  | none => exact ⟨before, by simp⟩
  | some last =>
    dsimp only
    split_ifs
    · exact ⟨before, rfl⟩
    · exact hposition last _
    · exact ⟨last, rfl⟩

namespace StaticField

variable {family : FieldFamily} {nu rate : K} {field : StaticField K}

theorem compute_eq (family : FieldFamily) (nu rate : K) :
    compute family nu rate = some ⟨family, rate,
      if family.usesZeroField nu rate then none
      else some ⟨stepWidth nu rate, integrate family nu rate (stepWidth nu rate)
        (toIndex (Elementary.round (tableEnd / stepWidth nu rate)) + 1)⟩⟩ := by
  unfold compute
  split_ifs
  · rfl
  · simp only [gridSize?, successor?_eq]

theorem exists_value (field : StaticField K) :
    ∃ p0 : K → K, ∀ t, field.value t = some (p0 t) := by
  have h : ∀ t, ∃ v, field.value t = some v := by
    intro t
    unfold value
    split
    · exact ⟨_, rfl⟩
    · exact SampledTable.exists_lookup _ t _
  exact ⟨fun t => (h t).choose, fun t => (h t).choose_spec⟩

theorem exists_compute (family : FieldFamily) (nu rate : K) :
    ∃ field, compute family nu rate = some field ∧
      ∃ p0 : K → K, ∀ t, field.value t = some (p0 t) :=
  ⟨_, compute_eq family nu rate, exists_value _⟩

end StaticField

/-! ## Time zero -/

section Zero

variable {K : Type} [Field K] [LinearOrder K]

theorem stepWidth_pos [IsStrictOrderedRing K] {family : FieldFamily} {nu rate : K}
    (h : family.usesZeroField nu rate = false) : 0 < stepWidth nu rate := by
  have hnu : (0.02 : K) ≤ nu := by
    unfold FieldFamily.usesZeroField at h
    split_ifs at h with hsmall
    exact not_lt.1 hsmall
  have hpos : 0 < nu := lt_of_lt_of_le (by norm_num) hnu
  unfold stepWidth
  dsimp only
  split_ifs with hfield hwidth hwidth
  · have hrate : 0 < rate := hpos.trans hwidth.1
    positivity
  · positivity
  · have hrate : 0 < rate := hpos.trans hwidth.1
    positivity
  · positivity

theorem Integration.extend_zero (f : Integration K) (dt : K) (count i : ℕ) (previous integral : K)
    {samples : Array K} {first : K} (h : samples[0]? = some first) :
    (f.extend dt count i previous integral samples)[0]? = some first := by
  induction count generalizing i previous integral samples with
  | zero => exact h
  | succ count ih =>
    have hpush : ∀ x, (samples.push x)[0]? = some first := by
      intro x
      obtain ⟨hpos, -⟩ := Array.getElem?_eq_some_iff.1 h
      rw [Array.getElem?_push, if_neg hpos.ne, h]
    unfold extend
    dsimp only
    split_ifs
    · exact hpush _
    · exact ih _ _ _ (hpush _)

variable [FloorRing K] [Elementary K]

theorem FieldFamily.zeroField_zero (hexp : exp (0 : K) = 1) (family : FieldFamily) (rate : K) :
    family.zeroField rate 0 = 1 := by
  cases family with
  | gauss =>
    norm_num [zeroField, Formula.gaussKuboToyabe, square, Formula.oneThird, Formula.twoThirds, hexp]
  | lorentz =>
    norm_num [zeroField, Formula.lorentzKuboToyabe, Formula.oneThird, Formula.twoThirds, hexp]

namespace StaticField

variable {family : FieldFamily} {nu rate : K} {field : StaticField K}

theorem integrate_zero (family : FieldFamily) (nu rate dt : K) (size : ℕ) :
    (integrate family nu rate dt size)[0]? = some 1 := by
  have hone : #[(1.0 : K)][0]? = some 1 := by norm_num
  cases family <;> exact Integration.extend_zero _ _ _ _ _ _ hone

theorem value_zero [IsExact K] [IsStrictOrderedRing K] (hexp : exp (0 : K) = 1)
    (h : compute family nu rate = some field) : field.value 0 = some 1 := by
  rw [compute_eq, Option.some_inj] at h
  subst h
  cases hform : family.usesZeroField nu rate with
  | true => simp [value, family.zeroField_zero hexp]
  | false =>
    have hone : (1.0 : K) = 1 := by norm_num
    exact SampledTable.lookup_zero (integrate_zero _ _ _ _ _) (stepWidth_pos hform) _

end StaticField

end Zero

end MuonSpin
