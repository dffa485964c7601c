import MuonSpin.Proofs.Evaluation.TimeShift

/-!
# Fields and hopping rates of zero

Where a tabulated kernel has nothing to integrate it is a simpler kernel: the static one in a field that
is too small is the formula for zero field, and the dynamic one without hopping is the static one. Each
of the three finds its time shift at a place of its own.

* `FieldFamily.zeroFieldForm`: the formula for zero field as a kernel;
* `shiftedTime_cons`: a value in front moves the place of the time shift by one;
* `StaticKernel.directValue_of_usesZeroField`, `DynamicKernel.directValue_of_noHopping`: the two
  steps, without kept tables;
* **`Engine.value_of_zero`**: both steps for engines after any evaluations.
-/

namespace MuonSpin

/-- The static Kubo–Toyabe function of the family in zero field, as a kernel. -/
def FieldFamily.zeroFieldForm : FieldFamily → ClosedForm
  | gauss => .gaussKuboToyabe
  | lorentz => .lorentzKuboToyabe

section Zero

variable {family : FieldFamily} {nu rate nuC : Float}

theorem shiftedTime_cons (t a : Float) (rest : List Float) (n : Nat) :
    shiftedTime t (a :: rest) (n + 1) = shiftedTime t rest n := by
  simp only [shiftedTime, List.getElem?_cons_succ, List.length_cons, Nat.add_right_cancel_iff]

theorem FieldFamily.value_zeroFieldForm (family : FieldFamily) (rate t : Float)
    (rest : List Float) :
    family.zeroFieldForm.value t (rate :: rest) =
      some (family.zeroField rate (shiftedTime t rest 0)) := by
  rw [← shiftedTime_cons t rate rest 0]
  cases family <;> rfl

/-! ## The two steps -/

theorem StaticField.compute_of_usesZeroField (h : family.usesZeroField nu rate = true) :
    compute family nu rate = some ⟨family, rate, none⟩ := by
  rw [compute, if_pos h]

/-- **In a field that is too small** the static kernel is the formula for zero field. The table would
read one before time zero; the formula does not. -/
theorem StaticKernel.directValue_of_usesZeroField (h : family.usesZeroField nu rate = true)
    (t : Float) (rest : List Float) :
    directValue family t (nu :: rate :: rest) = family.zeroFieldForm.value t (rate :: rest) := by
  rw [directValue, StaticField.compute_of_usesZeroField h, shiftedTime_cons, shiftedTime_cons,
    family.value_zeroFieldForm]
  rfl

theorem beq_zero_of_zero {x : Float} (h : x = 0 ∨ x = -0) : (x == 0) = true := by
  rcases h with rfl | rfl <;> decide

theorem DynamicField.compute_of_noHopping (h : (nuC == 0) = true) :
    compute family nu rate nuC = (StaticField.compute family nu rate).map static := by
  unfold compute
  rw [if_pos h]

/-- **Without hopping** the dynamic kernel is the static one, with a table or without. -/
theorem DynamicKernel.directValue_of_noHopping (h : (nuC == 0) = true) (t : Float)
    (rest : List Float) :
    directValue family t (nu :: rate :: nuC :: rest) =
      StaticKernel.directValue family t (nu :: rate :: rest) := by
  rw [directValue, StaticKernel.directValue, DynamicField.compute_of_noHopping h, Option.bind_map]
  simp only [shiftedTime_cons]
  rfl

end Zero

/-- **Where there is nothing to integrate** the kernels are the simpler ones, bit for bit. For any times,
time shifts and widths, and whatever the engines were evaluated at before: in a field that is too small
for the width, the static kernel has the value of the formula for zero field, also at negative times;
and for a hopping rate of zero, of either sign, the dynamic kernel has the value of the static one in any
field, or both have none. -/
theorem Engine.value_of_zero {family : FieldFamily} {engine engine' : Engine}
    (h : engine.Evaluated (.static family)) (h' : engine'.Evaluated (.dynamic family))
    (nu rate : UInt64) (t : Float) (shift : Option UInt64) (parts parts' : GlobalParts) :
    (family.usesZeroField (Float.ofBits nu) (.ofBits rate) = true →
      ∃ v, (engine.value t (nu :: rate :: shift.toList) parts).1 = some v ∧
        family.zeroFieldForm.value t (numbers (rate :: shift.toList)) = some v) ∧
    ∀ nuC : UInt64, Float.ofBits nuC = 0 ∨ Float.ofBits nuC = -0 →
      (engine'.value t (nu :: rate :: nuC :: shift.toList) parts').1 =
        (engine.value t (nu :: rate :: shift.toList) parts).1 := by
  have hstatic : (engine.value t (nu :: rate :: shift.toList) parts).1 =
      StaticKernel.directValue family t (numbers (nu :: rate :: shift.toList)) :=
    h.value_eq (fun hkernel => Kernel.noConfusion hkernel) t _ parts
  refine ⟨fun hsmall => ?_, fun nuC hzero => ?_⟩
  · rw [hstatic]
    simp only [numbers, List.map_cons]
    rw [StaticKernel.directValue_of_usesZeroField hsmall, family.value_zeroFieldForm]
    exact ⟨_, rfl, rfl⟩
  · have hdynamic : (engine'.value t (nu :: rate :: nuC :: shift.toList) parts').1 =
        DynamicKernel.directValue family t (numbers (nu :: rate :: nuC :: shift.toList)) :=
      h'.value_eq (fun hkernel => Kernel.noConfusion hkernel) t _ parts'
    rw [hdynamic, hstatic]
    exact DynamicKernel.directValue_of_noHopping (beq_zero_of_zero hzero) t _

/-- A shift beyond the time, after an evaluation that left a table, and a hopping rate of negative zero
in a field with a table. -/
theorem Engine.value_of_zero_shifted :
    let engine : Engine :=
      ((Engine.static ⟨.gauss, .empty⟩).value 1.0 ([2.5, 0.4].map Float.toBits) .empty).2.1
    let engine' : Engine := .dynamic ⟨.gauss, .empty⟩
    engine.Evaluated (.static .gauss) ∧ engine'.Evaluated (.dynamic .gauss) ∧
      FieldFamily.gauss.usesZeroField (0.0 : Float) 1.0 = true ∧
      (engine.value 0.2 ([0.0, 1.0, 0.5].map Float.toBits) .empty).1 =
        ClosedForm.gaussKuboToyabe.value 0.2 [1.0, 0.5] ∧
      FieldFamily.gauss.usesZeroField (2.5 : Float) 1.0 = false ∧
      (engine'.value 0.2 ([2.5, 1.0, -0, 0.5].map Float.toBits) .empty).1 =
        (engine.value 0.2 ([2.5, 1.0, 0.5].map Float.toBits) .empty).1 := by
  have hfresh : Engine.Evaluated (.static .gauss) (.static ⟨.gauss, .empty⟩) := .fresh rfl ⟨rfl, rfl⟩
  have hengine := hfresh.value 1.0 ([2.5, 0.4].map Float.toBits) .empty
  have hengine' : Engine.Evaluated (.dynamic .gauss) (.dynamic ⟨.gauss, .empty⟩) :=
    .fresh rfl ⟨rfl, rfl⟩
  have hsmall : FieldFamily.gauss.usesZeroField (0.0 : Float) 1.0 = true := by decide
  refine ⟨hengine, hengine', hsmall, ?_, by decide, ?_⟩
  · obtain ⟨v, hvalue, hform⟩ := (Engine.value_of_zero hengine hengine' (Float.toBits 0.0)
      (Float.toBits 1.0) 0.2 (some (Float.toBits 0.5)) .empty .empty).1 hsmall
    exact hvalue.trans hform.symm
  · exact (Engine.value_of_zero hengine hengine' (Float.toBits 2.5) (Float.toBits 1.0) 0.2
      (some (Float.toBits 0.5)) .empty .empty).2 (Float.toBits (-0)) (.inr rfl)

end MuonSpin
