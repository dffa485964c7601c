import MuonSpin.Proofs.Evaluation.Solves

/-!
# Time shifts

A kernel with a fixed number of parameters takes one value more, by which the time is shifted.

* `Kernel.directValue`: the value of a kernel that keeps no table;
* `Engine.Evaluated`: the engine of a kernel after any evaluations, and `Engine.Evaluated.value_eq`: its
  values are those without a kept table; `Theory.evaluated_afterCalls`: the engines of a theory that was
  built and evaluated are such engines;
* `shiftedTime_concat`, `Kernel.directValue_concat`: the value behind the parameters shifts the time, and
  nothing else reads it;
* **`Engine.value_concat`**: an engine at a time, with a time shift, has the value of any engine of the
  same kernel at the shifted time.
-/

namespace MuonSpin

/-! ## Engines after evaluations -/

/-- The value of a kernel whose table, if it has one, is computed anew. A user function has none without
an instance. -/
def Kernel.directValue (t : Float) (val : List Float) : Kernel → Option Float
  | closed form => form.value t val
  | static family => StaticKernel.directValue family t val
  | dynamic family => DynamicKernel.directValue family t val
  | user => none

/-- The engine of a kernel as it is made, or after evaluations at any values, some of which may have
stopped. -/
inductive Engine.Evaluated (kernel : Kernel) : Engine → Prop
  | fresh {engine : Engine} (ofKernel : engine.kernel = kernel) (fresh : engine.Fresh) :
    Evaluated kernel engine
  | value {engine : Engine} (before : Evaluated kernel engine) (t : Float) (val : List UInt64)
      (parts : GlobalParts) : Evaluated kernel (engine.value t val parts).2.1

namespace Engine

variable {kernel : Kernel} {engine : Engine}

theorem sound_of_key?_eq_none (h : engine.key? = none) : engine.Sound := by
  cases engine with
  | closed form | user f => trivial
  | static k | dynamic k =>
    have hslot : k.memo.slot = none := Option.map_eq_none_iff.1 h
    intro key table hkept
    rw [hslot] at hkept
    cases hkept

theorem Sound.value_eq (h : engine.Sound) (huser : engine.kernel ≠ .user) (t : Float)
    (val : List UInt64) (parts : GlobalParts) :
    (engine.value t val parts).1 = engine.kernel.directValue t (numbers val) ∧
      (engine.value t val parts).2.1.Sound := by
  cases engine with
  | closed form => exact ⟨rfl, trivial⟩
  | static k =>
    obtain ⟨hvalue, -, hsound⟩ := StaticKernel.value_sound h t val
    exact ⟨hvalue, hsound⟩
  | dynamic k =>
    obtain ⟨hvalue, -, hsound⟩ := DynamicKernel.value_sound h t val
    exact ⟨hvalue, hsound⟩
  | user f => exact absurd rfl huser

theorem Evaluated.kernel_eq (h : engine.Evaluated kernel) : engine.kernel = kernel := by
  induction h with
  | fresh ofKernel _ => exact ofKernel
  | value _ t val parts ih => exact (same_value _ t val parts).kernel.trans ih

theorem Evaluated.sound (h : engine.Evaluated kernel) (huser : kernel ≠ .user) :
    engine.Sound := by
  induction h with
  | fresh _ fresh => exact sound_of_key?_eq_none fresh.key?
  | value before t val parts ih =>
    have hkernel := before.kernel_eq
    exact (ih.value_eq (hkernel ▸ huser) t val parts).2

/-- **Earlier evaluations** do not show in values. -/
theorem Evaluated.value_eq (h : engine.Evaluated kernel) (huser : kernel ≠ .user) (t : Float)
    (val : List UInt64) (parts : GlobalParts) :
    (engine.value t val parts).1 = kernel.directValue t (numbers val) := by
  have hkernel := h.kernel_eq
  rw [((h.sound huser).value_eq (hkernel ▸ huser) t val parts).1, hkernel]

end Engine

namespace Theory

variable {theory : Theory} {P : Factor → Prop} {point : Point}

/-- What evaluations of a factor preserve, evaluations of its tree preserve. -/
theorem All.evaluateInto (h : theory.All P)
    (hP : ∀ factor parts, P factor → P (factor.value point parts).2.1)
    (combine : Float → Float → Float) (x : Float) (parts : GlobalParts) :
    (theory.evaluateInto point combine x parts).2.1.All P := by
  induction theory generalizing combine x parts with
  | nil => trivial
  | node factor times plus ihtimes ihplus =>
    obtain ⟨hfactor, htimes, hplus⟩ := h
    have hfactor' := hP factor parts hfactor
    -- an evaluation that stops leaves the parts behind it as they were
    simp only [Theory.evaluateInto]
    rcases hv : factor.value point parts with ⟨_ | v, factor', parts₁⟩ <;> rw [hv] at hfactor'
    · exact ⟨hfactor', htimes, hplus⟩
    have htimes' := ihtimes htimes (· * ·) v parts₁
    simp only
    rcases hw : times.evaluateInto point (· * ·) v parts₁ with ⟨_ | w, times', parts₂⟩ <;>
      rw [hw] at htimes'
    · exact ⟨hfactor', htimes', hplus⟩
    have hplus' := ihplus hplus (· + ·) w parts₂
    simp only
    rcases hy : plus.evaluateInto point (· + ·) w parts₂ with ⟨_ | y, plus', parts₃⟩ <;>
      rw [hy] at hplus' <;> exact ⟨hfactor', htimes', hplus'⟩

theorem evaluated_value {factor : Factor} (h : factor.engine.Evaluated factor.kernel) (point : Point)
    (parts : GlobalParts) :
    (factor.value point parts).2.1.engine.Evaluated (factor.value point parts).2.1.kernel := by
  rw [(factor.same_value point parts).kernel]
  unfold Factor.value
  cases factor.resolve? point with
  | none => exact h
  | some val => exact .value h point.t val parts

/-- **The factors of a theory** that was built and then evaluated at any points, whether or not these
evaluations had values. -/
theorem evaluated_afterCalls {session session' : Session} {ctx : BuildContext}
    {lines : List TheoryLine} (h : session.build ctx lines = (.ok theory, session'))
    (parts : GlobalParts) (points : List Point) :
    (theory.afterCalls parts points).1.All fun factor =>
      factor.engine.Evaluated factor.kernel := by
  have hbuilt : theory.All fun factor => factor.engine.Evaluated factor.kernel :=
    (fresh_of_build h).imp fun _ hfresh => .fresh rfl hfresh
  clear h
  induction points generalizing theory parts with
  | nil => exact hbuilt
  | cons point points ih =>
    exact ih _ (hbuilt.evaluateInto (fun _ parts h => evaluated_value h point parts) _ _ parts)

end Theory

/-! ## Values behind the parameters -/

section Shift

variable {n : Nat} {val : List Float}

theorem shiftedTime_concat (t s : Float) (hval : val.length = n) :
    shiftedTime t (val ++ [s]) n = t - s := by
  subst hval
  simp [shiftedTime]

theorem ClosedForm.value_append {form : ClosedForm} (hn : form.signature.arity = .exactly n)
    (hval : val.length = n) (t : Float) (rest : List Float) :
    form.value t (val ++ rest) = form.value (shiftedTime t (val ++ rest) n) val := by
  -- both lists begin with the parameters, and on the right nothing follows them
  cases form with
  | constant | asymmetry | exponential | gaussian | gaussKuboToyabe | lorentzKuboToyabe
  | fluorineMuonFluorine =>
    cases hn
    match val, hval with
    | [_], _ => rfl
  | stretchedExponential | combinedKuboToyabe | stretchedKuboToyabe | anisotropicHyperfine
  | abragam | precession | besselPrecession | staticNoakesKalvius =>
    cases hn
    match val, hval with
    | [_, _], _ => rfl
  | spinGlass | dynamicNoakesKalvius =>
    cases hn
    match val, hval with
    | [_, _, _], _ => rfl
  | internalFieldLorentz | skewedGaussian | staticNoakesKalviusTransverse =>
    cases hn
    match val, hval with
    | [_, _, _, _], _ => rfl
  | internalField | internalFieldGauss | internalBessel | dynamicNoakesKalviusTransverse =>
    cases hn
    match val, hval with
    | [_, _, _, _, _], _ => rfl
  | negativeMuon =>
    cases hn
    match val, hval with
    | [_, _, _, _, _, _], _ => rfl
  | polynomial => cases hn

theorem StaticKernel.directValue_append (family : FieldFamily) (hval : val.length = 2) (t : Float)
    (rest : List Float) :
    directValue family t (val ++ rest) = directValue family (shiftedTime t (val ++ rest) 2) val := by
  match val, hval with
  | [_, _], _ => rfl

theorem DynamicKernel.directValue_append (family : FieldFamily) (hval : val.length = 3)
    (t : Float) (rest : List Float) :
    directValue family t (val ++ rest) = directValue family (shiftedTime t (val ++ rest) 3) val := by
  match val, hval with
  | [_, _, _], _ => rfl

namespace Kernel

variable {kernel : Kernel}

/-- **A kernel with a fixed number of parameters** reads these and the shifted time. -/
theorem directValue_append (hn : kernel.arity = .exactly n) (hval : val.length = n) (t : Float)
    (rest : List Float) :
    kernel.directValue t (val ++ rest) =
      kernel.directValue (shiftedTime t (val ++ rest) n) val := by
  cases kernel with
  | closed form => exact ClosedForm.value_append hn hval t rest
  | static family =>
    cases family <;> cases hn <;> exact StaticKernel.directValue_append _ hval t rest
  | dynamic family =>
    cases family <;> cases hn <;> exact DynamicKernel.directValue_append _ hval t rest
  | user => cases hn

theorem directValue_concat (hn : kernel.arity = .exactly n) (hval : val.length = n) (t s : Float) :
    kernel.directValue t (val ++ [s]) = kernel.directValue (t - s) val := by
  rw [directValue_append hn hval, shiftedTime_concat t s hval]

theorem ne_user_of_arity (hn : kernel.arity = .exactly n) : kernel ≠ .user := by
  rintro rfl
  cases hn

end Kernel

theorem ClosedForm.exists_value {form : ClosedForm} (hval : form.signature.arity.least ≤ val.length)
    (t : Float) : ∃ v, form.value t val = some v := by
  refine Option.ne_none_iff_exists'.1 fun hnone => ?_
  have hfew := (form.value_eq_none_iff t).1 hnone
  exact absurd (Kernel.reads_le_least (.closed form)) (Nat.not_le.2 (Nat.lt_of_le_of_lt hval hfew))

end Shift

theorem Engine.Evaluated.exists_value {form : ClosedForm} {engine : Engine}
    (h : engine.Evaluated (.closed form)) {val : List UInt64}
    (hval : form.signature.arity.least ≤ val.length) (t : Float) (parts : GlobalParts) :
    ∃ v, (engine.value t val parts).1 = some v := by
  rw [h.value_eq fun hkernel => Kernel.noConfusion hkernel]
  exact ClosedForm.exists_value (by rwa [length_numbers]) t

/-- **A time shift moves the time.** For a kernel with `n` parameters, the value at a time with `n`
values and a shift behind them is the value for these `n` values at a time earlier by the shift, bit for
bit. This holds for the formulas, which have a value, and for the tabulated kernels, whatever the
engines of both evaluations were evaluated at before. -/
theorem Engine.value_concat {kernel : Kernel} {n : Nat} (hn : kernel.arity = .exactly n)
    {engine engine' : Engine} (h : engine.Evaluated kernel) (h' : engine'.Evaluated kernel)
    {val : List UInt64} (hval : val.length = n) (t : Float) (shift : UInt64)
    (parts parts' : GlobalParts) :
    (engine.value t (val ++ [shift]) parts).1 = (engine'.value (t - .ofBits shift) val parts').1 ∧
      ∀ form, kernel = .closed form →
        ∃ v, (engine'.value (t - .ofBits shift) val parts').1 = some v := by
  have huser := Kernel.ne_user_of_arity hn
  have hnumbers : (numbers val).length = n := (length_numbers val).trans hval
  have happend : numbers (val ++ [shift]) = numbers val ++ [.ofBits shift] := List.map_append
  refine ⟨?_, ?_⟩
  · rw [h.value_eq huser, h'.value_eq huser, happend]
    exact Kernel.directValue_concat hn hnumbers t (.ofBits shift)
  · rintro form rfl
    have hleast : form.signature.arity.least = n := congrArg Arity.least hn
    exact h'.exists_value (Nat.le_of_eq (hleast.trans hval.symm)) _ parts'

/-- The table that an evaluation with another width has left does not show. -/
theorem Engine.value_concat_static :
    let engine : Engine := .static ⟨.gauss, .empty⟩
    let left : Engine := (engine.value 1.0 ([2.5, 0.4].map Float.toBits) .empty).2.1
    Kernel.arity (.static .gauss) = .exactly ([2.5, 0.3].map Float.toBits).length ∧
      left.Evaluated (.static .gauss) ∧ engine.Evaluated (.static .gauss) ∧
      (left.value 1.0 ([2.5, 0.3, 0.2].map Float.toBits) .empty).1 =
        (engine.value (1.0 - 0.2) ([2.5, 0.3].map Float.toBits) .empty).1 := by
  have hfresh : Engine.Evaluated (.static .gauss) (.static ⟨.gauss, .empty⟩) :=
    .fresh rfl ⟨rfl, rfl⟩
  have hleft := hfresh.value 1.0 ([2.5, 0.4].map Float.toBits) .empty
  have hval : ([2.5, 0.3].map Float.toBits).length = 2 := rfl
  exact ⟨rfl, hleft, hfresh,
    (Engine.value_concat rfl hleft hfresh hval 1.0 (Float.toBits 0.2) .empty .empty).1⟩

end MuonSpin
