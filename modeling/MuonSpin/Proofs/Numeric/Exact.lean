import Mathlib.Algebra.Order.Floor.Ring
import Mathlib.Analysis.SpecialFunctions.Pow.Real
import Mathlib.Data.Rat.Floor
import Mathlib.Tactic.NormNum.OfScientific
import MuonSpin.Numeric.Scalar

/-!
# Exact arithmetic

The relaxation functions, read with the numbers of an ordered field.

* `IsExact`: rounding, absolute values and indices are those of the field, **every number is finite and
  every index has a successor** (`successor?_eq`). Exponential, trigonometric functions, roots and powers
  remain arbitrary functions;
* `exactScalar`: such operations, from these functions; `realScalar`: those of the real numbers;
* `nearest`: rounding a number that is not negative (`round_of_nonneg`).
-/

namespace MuonSpin

/-- The operations beside the arithmetic ones are exact. -/
class IsExact (K : Type) [Field K] [LinearOrder K] [FloorRing K] [Elementary K] : Prop where
  abs_eq (x : K) : Elementary.abs x = |x|
  floor_eq (x : K) : Elementary.floor x = ⌊x⌋
  ceil_eq (x : K) : Elementary.ceil x = ⌈x⌉
  /-- A half goes away from zero. -/
  round_eq (x : K) :
    Elementary.round x = if x < 0 then -(⌊1 / 2 - x⌋ : K) else ⌊1 / 2 + x⌋
  isFinite_eq (x : K) : Elementary.isFinite x = true
  isInfinite_eq (x : K) : Elementary.isInfinite x = false
  toIndex_eq (x : K) : Elementary.toIndex x = ⌊x⌋₊
  maxIndex_eq : Elementary.maxIndex K = none

section IsExact

variable {K : Type} [Field K] [LinearOrder K] [FloorRing K]

/-- Exact operations, from functions with irrational values. -/
@[reducible] def exactScalar (exp sin cos sqrt : K → K) (pow : K → K → K) : Elementary K where
  exp := exp
  sin := sin
  cos := cos
  sqrt := sqrt
  pow := pow
  abs x := |x|
  floor x := ⌊x⌋
  ceil x := ⌈x⌉
  round x := if x < 0 then -(⌊1 / 2 - x⌋ : K) else ⌊1 / 2 + x⌋
  isFinite _ := true
  isInfinite _ := false
  infinity := 0
  toIndex x := ⌊x⌋₊
  maxIndex := none

/-- The nearest whole number of a number that is not negative, a half going up. -/
def nearest (x : K) : ℕ := ⌊1 / 2 + x⌋₊

theorem isExact_exactScalar (exp sin cos sqrt : K → K) (pow : K → K → K) :
    @IsExact K _ _ _ (exactScalar exp sin cos sqrt pow) :=
  let _ := exactScalar exp sin cos sqrt pow
  ⟨fun _ => rfl, fun _ => rfl, fun _ => rfl, fun _ => rfl, fun _ => rfl, fun _ => rfl, fun _ => rfl,
    rfl⟩

/-- Exact arithmetic with real numbers. -/
@[reducible] noncomputable def realScalar : Elementary ℝ :=
  exactScalar Real.exp Real.sin Real.cos Real.sqrt fun x y => x ^ y

theorem isExact_realScalar : @IsExact ℝ _ _ _ realScalar := isExact_exactScalar _ _ _ _ _

variable [Elementary K] [IsExact K]

@[simp] theorem successor?_eq (i : ℕ) : successor? K i = some (i + 1) := by
  rw [successor?, IsExact.maxIndex_eq, if_neg (by simp)]

theorem floor_of_nonneg {x : K} (hx : 0 ≤ x) : Elementary.floor x = (⌊x⌋₊ : K) := by
  rw [IsExact.floor_eq, natCast_floor_eq_intCast_floor hx]

variable [IsStrictOrderedRing K]

theorem toIndex_natCast (n : ℕ) : Elementary.toIndex (n : K) = n := by
  rw [IsExact.toIndex_eq, Nat.floor_natCast]

theorem round_of_nonneg {x : K} (hx : 0 ≤ x) : Elementary.round x = (nearest x : K) := by
  have hhalf : (0 : K) ≤ 1 / 2 + x := by positivity
  rw [IsExact.round_eq, if_neg (not_lt.2 hx), nearest, natCast_floor_eq_intCast_floor hhalf]

end IsExact

end MuonSpin
