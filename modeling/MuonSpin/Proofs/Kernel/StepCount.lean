import Mathlib.Tactic.NormNum
import MuonSpin.Kernel.DynamicField
import MuonSpin.Proofs.Numeric.Exact

/-!
# The number of steps

The grid of the Volterra equation has twenty steps to a hop, as long as these are not too many.

* `larger_eq`, `between_eq`: the larger of two numbers, and the nearest number of an interval;
* `stepCount_eq`: the steps that are asked for (`askedSteps`), within the bounds;
* `stepCount_mem`, `le_stepCount`: there are at least three hundred and **at most a million steps**, and
  in between they follow the hopping rate; `stepCount_of_le`: in the end they do not.
-/

namespace MuonSpin

open Elementary

section Order

variable {K : Type} [LinearOrder K]

theorem larger_eq (a b : K) : larger a b = max a b := by
  rw [larger, if_pos (beq_self_eq_true a)]
  rcases lt_or_ge a b with h | h
  · rw [if_pos h, max_eq_right h.le]
  · rw [if_neg (not_lt.2 h), max_eq_left h]

theorem between_eq {lo hi : K} (h : lo ≤ hi) (x : K) : between lo hi x = max lo (min hi x) := by
  unfold between
  split_ifs with hlo hhi
  · rw [min_eq_right (hlo.le.trans h), max_eq_left hlo.le]
  · rw [min_eq_left hhi.le, max_eq_right h]
  · rw [min_eq_right (not_lt.1 hhi), max_eq_right (not_lt.1 hlo)]

end Order

namespace Volterra

variable {K : Type} [Field K] [LinearOrder K] [FloorRing K] [Elementary K]

/-- The steps that a field, a width and a hopping rate ask for. -/
def askedSteps (family : FieldFamily) (nu rate nuC : K) : K :=
  max (if 1 / 10 < rate then max (320 * nu) (500 / characteristicTime family rate) else 320 * nu)
    (400 * nuC)

variable [IsExact K] [IsStrictOrderedRing K]

theorem stepCount_eq (family : FieldFamily) (nu rate nuC : K) :
    stepCount family nu rate nuC = ⌈max 300 (min 1000000 (askedSteps family nu rate nuC))⌉₊ := by
  have hfield : (16.0 * tableEnd * nu : K) = 320 * nu := by
    norm_num [tableEnd]
  have htime : ∀ time : K, 25.0 * tableEnd / time = 500 / time := by
    intro time
    norm_num [tableEnd]
  have hhop : (20.0 * tableEnd * nuC : K) = 400 * nuC := by
    norm_num [tableEnd]
  have htenth : (0.1 : K) = 1 / 10 := by norm_num
  have hbounds : (fewestSteps : K) = 300 ∧ (mostSteps : K) = 1000000 := by
    constructor <;> norm_num [fewestSteps, mostSteps]
  have hle : (300 : K) ≤ 1000000 := by norm_num
  unfold stepCount
  simp only [larger_eq, hfield, htime, hhop, htenth, hbounds, between_eq hle, IsExact.ceil_eq,
    IsExact.toIndex_eq]
  rw [← Int.floor_toNat, Int.floor_intCast]
  rfl

variable {family : FieldFamily} {nu rate nuC : K}

theorem stepCount_mem (family : FieldFamily) (nu rate nuC : K) :
    300 ≤ stepCount family nu rate nuC ∧ stepCount family nu rate nuC ≤ 1000000 := by
  rw [stepCount_eq]
  constructor
  · have h : ((300 : ℕ) : K) ≤ max 300 (min 1000000 (askedSteps family nu rate nuC)) := by simp
    exact_mod_cast h.trans (Nat.le_ceil _)
  · refine Nat.ceil_le.2 (max_le ?_ ((min_le_left _ _).trans ?_)) <;> norm_num

theorem le_stepCount (family : FieldFamily) (nu rate nuC : K) :
    min 1000000 (400 * nuC) ≤ (stepCount family nu rate nuC : K) := by
  have hasked : 400 * nuC ≤ askedSteps family nu rate nuC := le_max_right _ _
  rw [stepCount_eq]
  exact ((min_le_min_left _ hasked).trans (le_max_right _ _)).trans (Nat.le_ceil _)

theorem stepCount_of_le (h : 2500 ≤ nuC) : stepCount family nu rate nuC = 1000000 := by
  obtain ⟨-, hle⟩ := stepCount_mem family nu rate nuC
  have hge := le_stepCount family nu rate nuC
  rw [min_eq_left (by linarith)] at hge
  exact le_antisymm hle (by exact_mod_cast hge)

end Volterra

end MuonSpin
