import Mathlib.Algebra.BigOperators.Intervals
import Mathlib.Tactic.FieldSimp
import Mathlib.Tactic.LinearCombination
import MuonSpin.Proofs.Kernel.StaticValue
import MuonSpin.Proofs.Kernel.StepCount

/-!
# The discretized Volterra equation

The trapezoid rule turns the equation into one for each step, in which the unknown stands on both sides.

* `IsSolution`: the discretized equation for a sequence; `isSolution_iff`: **solved for the unknown**, it
  gives each value from the ones before, so that there is one solution (`IsSolution.unique`);
* `Volterra.unknown_eq`, `Volterra.forward_extends`: one step of the program, and its loop;
* `Volterra.isSolution_forward`: the loop makes a solution;
* **`Volterra.solve_isSolution`**: the table of the program is the one solution, for any static
  polarization, and so for that of the two families.
-/

namespace MuonSpin

open Elementary

variable {K : Type} [Field K]

/-! ## The equation -/

/-- The values `v 0, …, v n` satisfy the discretized equation: a step has the inhomogeneous term and the
trapezoid sum over the steps up to it, whose ends have half the weight. -/
structure IsSolution (g : ℕ → K) (h : K) (n : ℕ) (v : ℕ → K) : Prop where
  start : v 0 = g 0
  step : ∀ i, 1 ≤ i → i ≤ n →
    v i = g i + h * (g i * v 0 / 2 + ∑ j ∈ Finset.Ico 1 i, g (i - j) * v j + g 0 * v i / 2)

/-- The equation of a step, solved for its unknown. -/
def nextValue (g : ℕ → K) (h : K) (v : ℕ → K) (i : ℕ) : K :=
  (g i + h * (0.5 * g i * v 0 + ∑ j ∈ Finset.Ico 1 i, g (i - j) * v j)) / Volterra.norm h (g 0)

theorem Volterra.norm_eq [CharZero K] (h g0 : K) : norm h g0 = 1 - h * g0 / 2 := by
  norm_num [norm]
  ring

section Equation

variable {g g' v v' : ℕ → K} {h : K} {n i : ℕ}

theorem nextValue_congr (hi : 1 ≤ i) (hv : ∀ j < i, v j = v' j) :
    nextValue g h v i = nextValue g h v' i := by
  have hsum : ∑ j ∈ Finset.Ico 1 i, g (i - j) * v j = ∑ j ∈ Finset.Ico 1 i, g (i - j) * v' j :=
    Finset.sum_congr rfl fun j hj => by rw [hv j (Finset.mem_Ico.1 hj).2]
  rw [nextValue, nextValue, hv 0 hi, hsum]

theorem IsSolution.congr (hv : IsSolution g h n v) (hg : ∀ i ≤ n, g' i = g i)
    (heq : ∀ i ≤ n, v' i = v i) : IsSolution g' h n v' := by
  have hzero := Nat.zero_le n
  refine ⟨by rw [heq 0 hzero, hg 0 hzero, hv.start], fun i h1 hn => ?_⟩
  have hsum : ∑ j ∈ Finset.Ico 1 i, g' (i - j) * v' j = ∑ j ∈ Finset.Ico 1 i, g (i - j) * v j :=
    Finset.sum_congr rfl fun j hj => by
      obtain ⟨-, hlt⟩ := Finset.mem_Ico.1 hj
      rw [hg (i - j) (by omega), heq j (by omega)]
  rw [heq i hn, heq 0 hzero, hg i hn, hg 0 hzero, hsum]
  exact hv.step i h1 hn

variable [CharZero K]

/-- **Solved for the unknown**, a step gives its value from the ones before. -/
theorem isSolution_iff (hne : Volterra.norm h (g 0) ≠ 0) :
    IsSolution g h n v ↔ v 0 = g 0 ∧ ∀ i, 1 ≤ i → i ≤ n → v i = nextValue g h v i := by
  have hstep : ∀ i, (v i = g i +
      h * (g i * v 0 / 2 + ∑ j ∈ Finset.Ico 1 i, g (i - j) * v j + g 0 * v i / 2)) ↔
      v i = nextValue g h v i := by
    intro i
    have hhalf : (0.5 : K) = 1 / 2 := by norm_num
    rw [nextValue, eq_div_iff hne, Volterra.norm_eq, hhalf]
    constructor <;> intro heq <;> linear_combination heq
  constructor
  · exact fun hv => ⟨hv.start, fun i h1 hn => (hstep i).1 (hv.step i h1 hn)⟩
  · exact fun hv => ⟨hv.1, fun i h1 hn => (hstep i).2 (hv.2 i h1 hn)⟩

theorem IsSolution.unique (hne : Volterra.norm h (g 0) ≠ 0) (hv : IsSolution g h n v)
    (hv' : IsSolution g h n v') : ∀ i ≤ n, v i = v' i := by
  obtain ⟨hstart, hstep⟩ := (isSolution_iff hne).1 hv
  obtain ⟨hstart', hstep'⟩ := (isSolution_iff hne).1 hv'
  intro i
  induction i using Nat.strongRecOn with
  | ind i ih =>
    intro hi
    rcases Nat.eq_zero_or_pos i with rfl | hpos
    · rw [hstart, hstart']
    · rw [hstep i hpos hi, hstep' i hpos hi]
      exact nextValue_congr hpos fun j hj => ih j hj (by omega)

end Equation

/-! ## The program -/

namespace Volterra

/-- The values of a table as a sequence. -/
def sequence (v : Array K) (i : ℕ) : K := v.getD i 0

/-- The inhomogeneous term at a step. -/
def inhomogeneity [Elementary K] (p0 : K → K) (nuC dt : K) (i : ℕ) : K :=
  p0 (i * dt) * exp (-nuC * (i * dt))

section Steps

variable {g v w : Array K} {h c : K} {i n count : ℕ}

theorem sequence_of_lt (hi : i < v.size) : sequence v i = v[i] := by
  simp [sequence, hi]

theorem memory_eq (g v : Array K) (i count : ℕ) (sum : K) :
    memory g v i count sum =
      sum + ∑ k ∈ Finset.range count, sequence g (k + 1) * sequence v (i - (k + 1)) := by
  induction count generalizing sum with
  | zero => simp [memory]
  | succ count ih =>
    rw [memory, ih, Finset.sum_range_succ]
    simp only [sequence]
    ring

/-- The sum of the program runs backwards over the steps. -/
theorem sum_memory (g v : ℕ → K) (hi : 1 ≤ i) :
    ∑ k ∈ Finset.range (i - 1), g (k + 1) * v (i - (k + 1)) =
      ∑ j ∈ Finset.Ico 1 i, g (i - j) * v j := by
  refine Finset.sum_nbij' (fun k => i - (k + 1)) (fun j => i - (j + 1)) ?_ ?_ ?_ ?_ ?_
  · intro k hk
    have := Finset.mem_range.1 hk
    exact Finset.mem_Ico.2 ⟨by omega, by omega⟩
  · intro j hj
    have := Finset.mem_Ico.1 hj
    exact Finset.mem_range.2 (by omega)
  · intro k hk
    have := Finset.mem_range.1 hk
    change i - (i - (k + 1) + 1) = k
    omega
  · intro j hj
    have := Finset.mem_Ico.1 hj
    change i - (i - (j + 1) + 1) = j
    omega
  · intro k hk
    have := Finset.mem_range.1 hk
    have hback : i - (i - (k + 1)) = k + 1 := by omega
    rw [hback]

/-- **One step of the program** solves the equation of this step. -/
theorem unknown_eq (g v : Array K) (h : K) (hi : 1 ≤ i) :
    unknown g h (norm h (sequence g 0)) v i = nextValue (sequence g) h (sequence v) i := by
  rw [unknown, memory_eq, neg_zero, zero_add, sum_memory _ _ hi, nextValue]
  rfl

/-- The steps have been made: the table has its old values, and behind them those of the steps, each
from the values before. -/
structure Extends (g : Array K) (h c : K) (v w : Array K) : Prop where
  before : ∀ i < v.size, sequence w i = sequence v i
  behind : ∀ i, v.size ≤ i → i < w.size → sequence w i = unknown g h c w i

theorem unknown_congr (hi : 1 ≤ i) (hvw : ∀ j < i, sequence v j = sequence w j) :
    unknown g h c v i = unknown g h c w i := by
  have hsum : ∀ k ∈ Finset.range (i - 1), sequence g (k + 1) * sequence v (i - (k + 1)) =
      sequence g (k + 1) * sequence w (i - (k + 1)) := fun k _ => by
    rw [hvw (i - (k + 1)) (by omega)]
  have hstart : v.getD 0 0 = w.getD 0 0 := hvw 0 hi
  rw [unknown, unknown, memory_eq, memory_eq, Finset.sum_congr rfl hsum, hstart]

theorem size_forward : (forward g h c count v).size = v.size + count := by
  induction count generalizing v with
  | zero => rfl
  | succ count ih =>
    rw [forward, ih, Array.size_push]
    omega

/-- **The loop**: every value behind the first ones comes from those before. -/
theorem forward_extends (hpos : 0 < v.size) : Extends g h c v (forward g h c count v) := by
  induction count generalizing v with
  | zero => exact ⟨fun _ _ => rfl, fun i hle hlt => absurd hlt (not_lt.2 hle)⟩
  | succ count ih =>
    obtain ⟨hbefore, hbehind⟩ := ih (v := v.push (unknown g h c v v.size)) (by simp)
    rw [Array.size_push] at hbefore hbehind
    have hkept : ∀ i < v.size,
        sequence (forward g h c (count + 1) v) i = sequence v i := by
      intro i hi
      rw [forward, hbefore i (by omega)]
      simp [sequence, Array.getElem?_push_lt, hi]
    refine ⟨hkept, fun i hle hlt => ?_⟩
    rcases hle.eq_or_lt with rfl | hgt
    · -- The value that the first step has appended.
      rw [unknown_congr hpos hkept, forward, hbefore v.size (by omega)]
      simp [sequence]
    · exact hbehind i hgt hlt

theorem isSolution_forward [CharZero K] (hne : norm h (sequence g 0) ≠ 0) :
    IsSolution (sequence g) h n
      (sequence (forward g h (norm h (sequence g 0)) n #[sequence g 0])) := by
  have hloop : Extends g h (norm h (sequence g 0)) #[sequence g 0]
      (forward g h (norm h (sequence g 0)) n #[sequence g 0]) := forward_extends (by simp)
  obtain ⟨hbefore, hbehind⟩ := hloop
  refine (isSolution_iff hne).2 ⟨hbefore 0 (by simp), fun i h1 hn => ?_⟩
  rw [hbehind i (by simpa using h1) (by rw [size_forward]; simp; omega), unknown_eq _ _ _ h1]

end Steps

section Solve

variable [Elementary K] {p0 : K → K} {p : K → Option K} {nuC dt : K} {n i : ℕ}

theorem inhomogeneity_zero (hexp : exp (0 : K) = 1) (p0 : K → K) (nuC dt : K) :
    inhomogeneity p0 nuC dt 0 = p0 0 := by
  simp [inhomogeneity, hexp]

/-- The inhomogeneous terms on the grid. -/
def terms (p0 : K → K) (nuC dt : K) (n : ℕ) : Array K :=
  ((List.range (n + 1)).map (inhomogeneity p0 nuC dt)).toArray

theorem sequence_terms (p0 : K → K) (nuC dt : K) (hi : i ≤ n) :
    sequence (terms p0 nuC dt n) i = inhomogeneity p0 nuC dt i := by
  have hlt : i < n + 1 := Nat.lt_succ_of_le hi
  simp [sequence, terms, hlt]

/-- The table for a polarization that has a value at every time. -/
def solution (p0 : K → K) (nuC : K) (n : ℕ) : SampledTable K :=
  let dt := tableEnd / (n : K)
  let g0 := inhomogeneity p0 nuC dt 0
  ⟨dt, forward (terms p0 nuC dt n) (dt * nuC) (norm (dt * nuC) g0) n #[g0]⟩

theorem solve_eq (h : ∀ t, p t = some (p0 t)) (nuC : K) (n : ℕ) :
    solve p nuC n = some (solution p0 nuC n) := by
  have hsource : ∀ dt, source p nuC dt n =
      some ((List.range (n + 1)).map (inhomogeneity p0 nuC dt)) := by
    intro dt
    unfold source
    simp only [h, Option.map_some]
    exact List.mapM_pure
  have hstart : ∀ dt, (terms p0 nuC dt n).getD 0 0 = inhomogeneity p0 nuC dt 0 :=
    fun dt => sequence_terms p0 nuC dt (Nat.zero_le n)
  unfold solve solution
  simp only [hsource]
  change some (SampledTable.mk _ (forward (terms p0 nuC _ n) _ (norm _ ((terms p0 nuC _ n).getD 0 0)) n
    #[(terms p0 nuC _ n).getD 0 0])) = _
  rw [hstart]

theorem size_solution (p0 : K → K) (nuC : K) (n : ℕ) : (solution p0 nuC n).size = n + 1 := by
  unfold solution SampledTable.size
  dsimp only
  rw [size_forward]
  exact Nat.add_comm 1 n

variable [CharZero K]

theorem dt_solution (p0 : K → K) (nuC : K) (n : ℕ) : (solution p0 nuC n).dt = 20 / n := by
  norm_num [solution, tableEnd]

theorem isSolution_solution
    (hne : norm ((solution p0 nuC n).dt * nuC) (inhomogeneity p0 nuC (solution p0 nuC n).dt 0) ≠ 0) :
    IsSolution (inhomogeneity p0 nuC (solution p0 nuC n).dt) ((solution p0 nuC n).dt * nuC) n
      (sequence (solution p0 nuC n).values) := by
  have hterms : ∀ i ≤ n, inhomogeneity p0 nuC (solution p0 nuC n).dt i =
      sequence (terms p0 nuC (solution p0 nuC n).dt n) i := fun i hi =>
    (sequence_terms p0 nuC _ hi).symm
  have hstart := hterms 0 (Nat.zero_le n)
  rw [hstart] at hne
  have hloop := isSolution_forward (n := n) hne
  rw [← hstart] at hloop
  exact hloop.congr hterms fun _ _ => rfl

theorem isSolution_iff_solution
    (hne : norm ((solution p0 nuC n).dt * nuC) (inhomogeneity p0 nuC (solution p0 nuC n).dt 0) ≠ 0)
    (v : ℕ → K) :
    IsSolution (inhomogeneity p0 nuC (solution p0 nuC n).dt) ((solution p0 nuC n).dt * nuC) n v ↔
      ∀ i (hi : i < (solution p0 nuC n).values.size), v i = (solution p0 nuC n).values[i] := by
  have htable := isSolution_solution hne
  have hsize : (solution p0 nuC n).values.size = n + 1 := size_solution p0 nuC n
  constructor
  · intro hv i hi
    rw [← sequence_of_lt hi]
    exact hv.unique hne htable i (by omega)
  · intro hv
    refine htable.congr (fun _ _ => rfl) fun i hi => ?_
    rw [hv i (by omega), sequence_of_lt (by omega)]

end Solve

variable [LinearOrder K] [Elementary K]

theorem dynamicField_solve_eq {family : FieldFamily} {nu rate : K} {field : StaticField K}
    {p0 : K → K} (hfield : StaticField.compute family nu rate = some field)
    (hvalue : ∀ t, field.value t = some (p0 t)) (nuC : K) :
    DynamicField.solve family nu rate nuC =
      some (.solved (solution p0 nuC (stepCount family nu rate nuC))) := by
  rw [DynamicField.solve, hfield, Option.bind_eq_bind, Option.bind_some, solve_eq hvalue]
  rfl

variable [FloorRing K] [IsExact K]

/-- **The table of the program** is the one solution of the discretized equation, on a grid of
`stepCount` steps over twenty microseconds, whenever the equations can be solved for their unknowns. This
holds for any static polarization `p0`; those of the families are functions of the time, and their
tables are made in this way. -/
theorem solve_isSolution (family : FieldFamily) (nu rate nuC : K) (p0 : K → K) :
    (norm (20 / stepCount family nu rate nuC * nuC)
        (inhomogeneity p0 nuC (20 / stepCount family nu rate nuC) 0) ≠ 0 →
      ∃ table : SampledTable K,
        solve (fun t => some (p0 t)) nuC (stepCount family nu rate nuC) = some table ∧
        table.dt = 20 / stepCount family nu rate nuC ∧
        table.size = stepCount family nu rate nuC + 1 ∧
        (∀ v : ℕ → K,
          IsSolution (inhomogeneity p0 nuC table.dt) (table.dt * nuC) (stepCount family nu rate nuC) v ↔
            ∀ i (hi : i < table.values.size), v i = table.values[i]) ∧
        ∀ field, StaticField.compute family nu rate = some field →
          (∀ t, field.value t = some (p0 t)) →
          DynamicField.solve family nu rate nuC = some (.solved table)) ∧
    ∃ field, StaticField.compute family nu rate = some field ∧
      ∃ p0 : K → K, ∀ t, field.value t = some (p0 t) := by
  refine ⟨fun hne => ?_, StaticField.exists_compute family nu rate⟩
  have hdt : (solution p0 nuC (stepCount family nu rate nuC)).dt =
      20 / stepCount family nu rate nuC := dt_solution p0 nuC _
  rw [← hdt] at hne
  exact ⟨_, solve_eq (fun _ => rfl) nuC _, hdt, size_solution p0 nuC _, isSolution_iff_solution hne,
    fun field hfield hvalue => dynamicField_solve_eq hfield hvalue nuC⟩

/-- Five thousand hops in a microsecond, with a table of a million steps. -/
theorem solve_isSolution_fast :
    letI := realScalar
    ∃ table : SampledTable ℝ, DynamicField.solve .gauss 0 2000 5000 = some (.solved table) ∧
      table.size = 1000001 ∧
      ∀ v : ℕ → ℝ,
        IsSolution (inhomogeneity (Formula.gaussKuboToyabe 2000) 5000 table.dt) (table.dt * 5000)
            1000000 v ↔
          ∀ i (hi : i < table.values.size), v i = table.values[i] := by
  let := realScalar
  have := isExact_realScalar
  have hcount : stepCount .gauss (0 : ℝ) 2000 5000 = 1000000 := stepCount_of_le (by norm_num)
  have hstart : Formula.gaussKuboToyabe (2000 : ℝ) 0 = 1 :=
    FieldFamily.zeroField_zero Real.exp_zero .gauss 2000
  have hfield : StaticField.compute .gauss (0 : ℝ) 2000 = some ⟨.gauss, 2000, none⟩ := by
    have hzero : FieldFamily.gauss.usesZeroField (0 : ℝ) 2000 = true := by
      norm_num [FieldFamily.usesZeroField]
    rw [StaticField.compute_eq, if_pos hzero]
  obtain ⟨hsolve, -⟩ :=
    solve_isSolution .gauss (0 : ℝ) 2000 5000 (Formula.gaussKuboToyabe 2000)
  rw [hcount] at hsolve
  obtain ⟨table, -, -, hsize, hunique, hcode⟩ := hsolve (by
    rw [norm_eq, inhomogeneity_zero Real.exp_zero, hstart]
    norm_num)
  exact ⟨table, hcode _ hfield fun _ => rfl, hsize, hunique⟩

end Volterra

end MuonSpin
