import Mathlib.Algebra.BigOperators.Fin
import Mathlib.Tactic.Ring
import MuonSpin.Kernel.Formulas

/-!
# Polynomials

A polynomial takes any number of values, with its time shift in front of them. The rule by which the last
value of the other formulas shifts the time would apply to it if there are three.

* `Formula.horner_eq_sum`: Horner's rule makes the sum of the powers with their coefficients;
* `Formula.horner_append`: coefficients behind others belong to the higher powers; `horner_concat`,
  `horner_append_zeros`: one coefficient more, and zeros;
* **`ClosedForm.value_polynomial`**: the kernel is this sum in the time since the shift, and its last
  value is a coefficient for any number of values.
-/

namespace MuonSpin

variable {R : Type} [CommRing R]

/-! ## Horner's rule -/

namespace Formula

@[simp] theorem horner_nil (x : R) : horner [] x = 0 := rfl

@[simp] theorem horner_cons (a : R) (coefficients : List R) (x : R) :
    horner (a :: coefficients) x = horner coefficients x * x + a := rfl

theorem horner_eq_sum (coefficients : List R) (x : R) :
    horner coefficients x = ∑ k : Fin coefficients.length, coefficients[k] * x ^ (k : ℕ) := by
  induction coefficients with
  | nil => rfl
  | cons a coefficients ih =>
    -- the constant apart, all powers are by one higher than in the sum of the others
    have hhigher : (∑ k : Fin coefficients.length, coefficients[k] * x ^ (k : ℕ)) * x =
        ∑ k : Fin coefficients.length, coefficients[k] * x ^ (k + 1 : ℕ) := by
      rw [Finset.sum_mul]
      exact Finset.sum_congr rfl fun k _ => by ring
    calc horner (a :: coefficients) x
        = ∑ k : Fin coefficients.length, coefficients[k] * x ^ (k + 1 : ℕ) + a := by
          rw [horner_cons, ih, hhigher]
      _ = a * x ^ 0 + ∑ k : Fin coefficients.length, coefficients[k] * x ^ (k + 1 : ℕ) := by
          rw [pow_zero, mul_one, add_comm]
      _ = ∑ k : Fin (coefficients.length + 1), (a :: coefficients)[k] * x ^ (k : ℕ) := by
          rw [Fin.sum_univ_succ]
          rfl

theorem horner_append (lower upper : List R) (x : R) :
    horner (lower ++ upper) x = horner lower x + horner upper x * x ^ lower.length := by
  induction lower with
  | nil => simp
  | cons a lower ih =>
    rw [List.cons_append, horner_cons, horner_cons, ih, List.length_cons]
    ring

theorem horner_concat (coefficients : List R) (last x : R) :
    horner (coefficients ++ [last]) x =
      horner coefficients x + last * x ^ coefficients.length := by
  rw [horner_append, horner_cons, horner_nil, zero_mul, zero_add]

theorem horner_zeros (n : ℕ) (x : R) : horner (List.replicate n 0) x = 0 := by
  induction n with
  | zero => rfl
  | succ n ih => rw [List.replicate_succ, horner_cons, ih, zero_mul, add_zero]

theorem horner_append_zeros (coefficients : List R) (n : ℕ) (x : R) :
    horner (coefficients ++ List.replicate n 0) x = horner coefficients x := by
  rw [horner_append, horner_zeros, zero_mul, add_zero]

end Formula

/-! ## The kernel -/

namespace ClosedForm

/- Division, order and the other operations of the scalars do not show in a polynomial, so that nothing is
asked of them. -/
variable [Div R] [OfScientific R] [LT R] [DecidableLT R] [LE R] [DecidableLE R] [BEq R]
  [Elementary R]

/-- **The value of a polynomial** is the sum of the powers of the time since its shift, which is its first
value, with the values behind it as coefficients. Further coefficients that are zero change nothing. A last
value is always a coefficient, that of the next power; also if there are three values, where the rule of the
other formulas would shift the time by the last one, and so give the first coefficient. -/
theorem value_polynomial (t shift : R) (coefficients : List R) :
    polynomial.value t (shift :: coefficients) =
        some (∑ k : Fin coefficients.length, coefficients[k] * (t - shift) ^ (k : ℕ)) ∧
      (∀ n, polynomial.value t (shift :: (coefficients ++ List.replicate n 0)) =
        polynomial.value t (shift :: coefficients)) ∧
      (∀ last, polynomial.value t (shift :: (coefficients ++ [last])) =
        (polynomial.value t (shift :: coefficients)).map
          (· + last * (t - shift) ^ coefficients.length)) ∧
      ∀ a b, shiftedTime t [shift, a, b] polynomial.signature.arity.least = t - b ∧
        polynomial.value (t - b) [shift, a] = some a ∧
        polynomial.value t [shift, a, b] = some (a + b * (t - shift)) := by
  have hvalue : ∀ (t : R) (coefficients : List R), polynomial.value t (shift :: coefficients) =
      some (Formula.horner coefficients (t - shift)) := fun _ _ => rfl
  simp only [hvalue]
  refine ⟨congrArg some (Formula.horner_eq_sum _ _),
    fun n => congrArg some (Formula.horner_append_zeros _ n _),
    fun last => congrArg some (Formula.horner_concat _ last _), fun a b => ⟨rfl, ?_, ?_⟩⟩
  · simp
  · simp only [Formula.horner_cons, Formula.horner_nil]
    congr 1
    ring

/-- The shift one in front of `2 + 3 x + x ^ 2`. -/
example : Formula.polynomial (3 : ℤ) [1, 2, 3, 1] = 12 := by decide

end ClosedForm

end MuonSpin
