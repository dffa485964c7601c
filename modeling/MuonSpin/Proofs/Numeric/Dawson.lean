import Mathlib.Algebra.Order.BigOperators.Group.Finset
import Mathlib.Data.Nat.Factorial.Basic
import Mathlib.Tactic.FieldSimp
import Mathlib.Tactic.Positivity
import MuonSpin.Numeric.SpecialFunctions
import MuonSpin.Proofs.Numeric.Exact

/-!
# The series of Dawson's integral

The program makes each term of the series from the one before, and adds terms until they shrink and the last
one no longer counts beside the sum. Nothing counts the terms.

* `DawsonSeries.seriesTerm`, `DawsonSeries.seriesSum`: the terms and the partial sums of the series;
* `DawsonSeries.EndsWith`: the sum may end with a term; `next_reached`: one step of the program, which adds
  a term and asks this;
* `run_of_endsWith`, `run_of_not_endsWith`: the loop stops with the first such term, and before it does not;
* `endsWith_four_hundred`: **there is such a term** below ten, by the decay of the factorials;
* **`DawsonSeries.run_ends`**: where the loop stops, and what it has summed up.
-/

namespace MuonSpin

open Elementary Finset

namespace DawsonSeries

/-! ## The series -/

section Series

variable {K : Type} [Field K]

/-- The term `x ^ (2 * k + 1) / (k! * (2 * k + 1))` of the series. -/
def seriesTerm (x : K) (k : ℕ) : K := x ^ (2 * k + 1) / (k.factorial * (2 * k + 1 : ℕ))

/-- The sum of the terms with the numbers `0, …, k`. -/
def seriesSum (x : K) (k : ℕ) : K := ∑ m ∈ range (k + 1), seriesTerm x m

theorem seriesSum_succ (x : K) (k : ℕ) :
    seriesSum x (k + 1) = seriesSum x k + seriesTerm x (k + 1) := sum_range_succ _ _

/-- A term without its factor `x`. -/
def weight (x : K) (k : ℕ) : K := (x ^ 2) ^ k / (k.factorial * (2 * k + 1 : ℕ))

theorem seriesTerm_eq (x : K) (k : ℕ) : seriesTerm x k = x * weight x k := by
  rw [seriesTerm, weight, pow_succ', pow_mul, mul_div_assoc]

theorem seriesSum_eq (x : K) (k : ℕ) : seriesSum x k = x * ∑ m ∈ range (k + 1), weight x m := by
  rw [seriesSum, mul_sum]
  exact sum_congr rfl fun m _ => seriesTerm_eq x m

theorem seriesTerm_succ [CharZero K] (x : K) (k : ℕ) :
    seriesTerm x (k + 1) =
      seriesTerm x k * (x * x / (k + 1) * (2 * (k + 1) - 1) / (2 * (k + 1) + 1)) := by
  have hcount : (k : K) + 1 ≠ 0 := by exact_mod_cast k.succ_ne_zero
  have hodd : 2 * (k : K) + 1 ≠ 0 := by exact_mod_cast (2 * k).succ_ne_zero
  have hnext : 2 * ((k : K) + 1) + 1 ≠ 0 := by exact_mod_cast (2 * (k + 1)).succ_ne_zero
  have hfactorial : (k.factorial : K) ≠ 0 := by exact_mod_cast k.factorial_ne_zero
  have hbefore : 2 * ((k : K) + 1) - 1 = 2 * k + 1 := by ring
  rw [seriesTerm, seriesTerm, Nat.factorial_succ, hbefore]
  push_cast
  -- The odd numbers cancel as they stand, not multiplied out.
  generalize (k : K) + 1 = count, 2 * (k : K) + 1 = odd at *
  generalize 2 * count + 1 = next at *
  field_simp
  ring

end Series

section Loop

variable {K : Type} [Field K] [LinearOrder K] {x : K} {i k count : ℕ}

/-- The sum may end with term `k`: the terms shrink, and this one no longer counts. -/
def EndsWith (x : K) (k : ℕ) : Prop :=
  x ^ 2 < k ∧ |seriesTerm x k| ≤ 1e-17 * |seriesSum x k|

instance (x : K) (k : ℕ) : Decidable (EndsWith x k) := inferInstanceAs (Decidable (_ ∧ _))

/-- The series after `k` steps that did not finish it. -/
def reached (x : K) (k : ℕ) : DawsonSeries K := ⟨k + 1, seriesTerm x k, seriesSum x k, false⟩

/-- The series that is finished with term `k`. -/
def finishedWith (x : K) (k : ℕ) : DawsonSeries K := ⟨k, seriesTerm x k, seriesSum x k, true⟩

omit [LinearOrder K] in
theorem start_eq [CharZero K] (x : K) : start x = reached x 0 := by
  norm_num [start, reached, seriesSum, seriesTerm]

variable [FloorRing K] [Elementary K] [IsExact K]

/-- **One step of the loop** adds the next term, and is the last one if the sum may end with it. -/
theorem next_reached (x : K) (k : ℕ) :
    next x (reached x k) = if EndsWith x (k + 1) then finishedWith x (k + 1) else reached x (k + 1) := by
  have hdecimals : (1.0 : K) = 1 ∧ (2.0 : K) = 2 := by constructor <;> norm_num
  have hends : EndsWith x (k + 1) ↔ x * x < (k : K) + 1 ∧
      |seriesTerm x (k + 1)| ≤ 1e-17 * |seriesSum x (k + 1)| := by
    rw [EndsWith, sq, Nat.cast_succ]
  unfold next reached finishedWith
  dsimp only
  rw [hdecimals.1, hdecimals.2, ← seriesTerm_succ, ← seriesSum_succ, IsExact.abs_eq, IsExact.abs_eq,
    if_congr hends rfl rfl, Nat.cast_succ]

/-! ## The loop -/

theorem run_of_endsWith (hends : EndsWith x k) (hbefore : ∀ m, i < m → m < k → ¬ EndsWith x m)
    (hlt : i < k) (hle : k ≤ i + count) : run x count (reached x i) = finishedWith x k := by
  induction count generalizing i with
  | zero => omega
  | succ count ih =>
    unfold run
    dsimp only
    rw [next_reached]
    by_cases hi : EndsWith x (i + 1)
    · have hfirst : k = i + 1 := by
        by_contra hne
        exact hbefore (i + 1) (by omega) (by omega) hi
      subst hfirst
      rw [if_pos hi]
      rfl
    · have hlater : i + 1 < k := by
        have hne : i + 1 ≠ k := fun heq => hi (heq ▸ hends)
        omega
      rw [if_neg hi]
      exact ih (fun m hm => hbefore m (by omega)) hlater (by omega)

theorem run_of_not_endsWith (h : ∀ m, i < m → m ≤ i + count → ¬ EndsWith x m) :
    run x count (reached x i) = reached x (i + count) := by
  induction count generalizing i with
  | zero => rfl
  | succ count ih =>
    unfold run
    dsimp only
    rw [next_reached, if_neg (h (i + 1) (by omega) (by omega))]
    have hrun := ih (i := i + 1) fun m hm hle => h m (by omega) (by omega)
    rw [show i + (count + 1) = i + 1 + count by omega, ← hrun]
    rfl

end Loop

/-! ## The decay of the terms -/

section Decay

variable {K : Type} [Field K] [LinearOrder K] [IsStrictOrderedRing K] {x : K} {k : ℕ}

theorem weight_nonneg (x : K) (k : ℕ) : 0 ≤ weight x k := by
  unfold weight
  positivity

/-- All terms have the sign of `x`, so that the sum is not smaller than its first term. -/
theorem abs_le_abs_seriesSum (x : K) (k : ℕ) : |x| ≤ |seriesSum x k| := by
  have hfirst : weight x 0 ≤ ∑ m ∈ range (k + 1), weight x m :=
    single_le_sum (fun m _ => weight_nonneg x m) (mem_range.2 k.succ_pos)
  have hone : weight x 0 = 1 := by simp [weight]
  rw [hone] at hfirst
  rw [seriesSum_eq, abs_mul]
  exact le_mul_of_one_le_right (abs_nonneg x) (hfirst.trans (le_abs_self _))

/-- The factorial of four hundred has outgrown the power of a hundred. -/
theorem weight_four_hundred_le (hx : |x| < 10) : weight x 400 ≤ 1e-17 := by
  have hsquare : x ^ 2 ≤ 10 ^ 2 := sq_le_sq' (abs_lt.1 hx).1.le (abs_lt.1 hx).2.le
  have hfactorial : 10 ^ 17 * (10 ^ 2) ^ 400 ≤ Nat.factorial 400 * 801 := by decide +kernel
  have hbound : (10 : K) ^ 17 * (10 ^ 2) ^ 400 ≤ Nat.factorial 400 * 801 := by
    exact_mod_cast hfactorial
  have hodd : ((2 * 400 + 1 : ℕ) : K) = 801 := by norm_num
  have hpos : (0 : K) < Nat.factorial 400 * (2 * 400 + 1 : ℕ) := by positivity
  rw [weight, div_le_iff₀ hpos, hodd]
  calc (x ^ 2) ^ 400 ≤ (10 ^ 2) ^ 400 := pow_le_pow_left₀ (sq_nonneg x) hsquare 400
    _ = 1e-17 * (10 ^ 17 * (10 ^ 2) ^ 400) := by
        rw [← mul_assoc, show (1e-17 : K) * 10 ^ 17 = 1 by norm_num, one_mul]
    _ ≤ 1e-17 * (Nat.factorial 400 * 801) := mul_le_mul_of_nonneg_left hbound (by norm_num)

/-- **Below ten** the sum may end with term four hundred. -/
theorem endsWith_four_hundred (hx : |x| < 10) : EndsWith x 400 := by
  have hsquare : x ^ 2 < 10 ^ 2 := sq_lt_sq' (abs_lt.1 hx).1 (abs_lt.1 hx).2
  refine ⟨hsquare.trans (by norm_num), ?_⟩
  calc |seriesTerm x 400| = |x| * weight x 400 := by
        rw [seriesTerm_eq, abs_mul, abs_of_nonneg (weight_nonneg x 400)]
    _ ≤ |x| * 1e-17 := mul_le_mul_of_nonneg_left (weight_four_hundred_le hx) (abs_nonneg x)
    _ ≤ 1e-17 * |seriesSum x 400| := by
        rw [mul_comm]
        exact mul_le_mul_of_nonneg_left (abs_le_abs_seriesSum x 400) (by norm_num)

end Decay

/-! ## The end of the loop -/

section Ends

variable {K : Type} [Field K] [LinearOrder K] [FloorRing K] [IsStrictOrderedRing K] {x : K}

theorem exists_first_endsWith (hx : |x| < 10) :
    ∃ k, 0 < k ∧ k ≤ 400 ∧ EndsWith x k ∧ ∀ m < k, ¬ EndsWith x m := by
  have hex : ∃ k, EndsWith x k := ⟨400, endsWith_four_hundred hx⟩
  have hends := Nat.find_spec hex
  have hpos : (0 : K) < Nat.find hex := (sq_nonneg x).trans_lt hends.1
  exact ⟨Nat.find hex, by exact_mod_cast hpos, Nat.find_min' hex (endsWith_four_hundred hx), hends,
    fun m hm => Nat.find_min hex hm⟩

variable [Elementary K] [IsExact K]

/-- **The series ends** for every argument below ten, after `k` steps: fewer steps do not finish it, and of
more that are allowed none is made. Then the last term is term `k` of the series, the sum is that of the
terms up to it, `k` is above the square of the argument, and the last term does not count beside the sum.
The steps that `dawson` allows are enough, so that this is the sum it takes. -/
theorem run_ends (hx : |x| < 10) :
    ∃ k : ℕ, 0 < k ∧
      (∀ count < k, (run x count (start x)).finished = false) ∧
      (∀ count, k ≤ count → (run x count (start x)).finished = true ∧
        (run x count (start x)).term = seriesTerm x k ∧
        (run x count (start x)).sum = seriesSum x k) ∧
      x ^ 2 < k ∧ |seriesTerm x k| ≤ 1e-17 * |seriesSum x k| ∧
      k ≤ fuel ∧ dawson x = exp (-(x * x)) * seriesSum x k := by
  obtain ⟨k, hpos, hle, hends, hfirst⟩ := exists_first_endsWith hx
  have hfuel : k ≤ fuel := hle.trans (by decide)
  have hrun : ∀ count, k ≤ count → run x count (start x) = finishedWith x k := fun count hcount => by
    rw [start_eq]
    exact run_of_endsWith hends (fun m _ => hfirst m) hpos (by omega)
  refine ⟨k, hpos, fun count hcount => ?_, fun count hcount => ?_, hends.1, hends.2, hfuel, ?_⟩
  · rw [start_eq, run_of_not_endsWith fun m _ hm => hfirst m (by omega)]
    rfl
  · rw [hrun count hcount]
    exact ⟨rfl, rfl, rfl⟩
  · have hsmall : ¬ (10.0 : K) ≤ |x| := by
      norm_num
      exact hx
    rw [dawson, IsExact.isFinite_eq, IsExact.abs_eq, if_neg (by simp), if_neg hsmall,
      hrun fuel hfuel]
    rfl

end Ends

/-- A negative argument, with more than ninety terms. -/
theorem run_ends_negative :
    letI := realScalar
    |(-19 / 2 : ℝ)| < 10 ∧ ∃ k : ℕ, 90 < k ∧ k ≤ fuel ∧
      (run (-19 / 2 : ℝ) fuel (start (-19 / 2))).finished = true ∧
      dawson (-19 / 2 : ℝ) = Real.exp (-(-19 / 2 * (-19 / 2))) * seriesSum (-19 / 2) k := by
  let := realScalar
  have := isExact_realScalar
  have hx : |(-19 / 2 : ℝ)| < 10 := by
    rw [abs_lt]
    constructor <;> norm_num
  obtain ⟨k, -, -, hend, hsquare, -, hfuel, hvalue⟩ := run_ends hx
  have hninety : ((90 : ℕ) : ℝ) < k := lt_trans (by norm_num) hsquare
  exact ⟨hx, k, by exact_mod_cast hninety, hfuel, (hend fuel hfuel).1, hvalue⟩

end DawsonSeries

end MuonSpin
