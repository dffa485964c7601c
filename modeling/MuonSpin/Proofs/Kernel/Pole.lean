import Mathlib.Tactic.FieldSimp
import MuonSpin.Proofs.Kernel.StaticTable
import MuonSpin.Proofs.Kernel.StepCount

/-!
# The search for the dominant pole

The bracket is halved sixty times. Which half is taken depends on the function at the middle alone, so that
nothing is known at an end of the bracket that has never been a middle.

* `Bracket.Halved`: what is known of a bracket after some halvings; `Bracket.exists_halve`: **one
  halving** keeps it, `Bracket.exists_narrow`: and so do many;
* `Bracket.Halved.abs_middle_sub_le`: a falling function crosses one near the middle of the bracket;
* `exists_laplace`, `exists_slowestRate`: the transform of a polarization exists, and the rate;
* **`StaticField.slowestRate_isPole`**: the rate that is found;
* `strictAntiOn_slowTransform`: the transform of a polarization that is not negative falls.
-/

namespace MuonSpin

open Elementary

/-! ## Halving -/

namespace Bracket

section Halving

variable {K : Type} [Field K] [LinearOrder K] {g : K → K} {p : K → Option K} {start b : Bracket K}
  {j k : ℕ}

/-- **A bracket after `k` halvings**, from a start: it has shrunk inside the start; at its lower end the
function is above one unless this end never moved, and at its upper end it is not, unless that end never
moved. -/
structure Halved (g : K → K) (start : Bracket K) (k : ℕ) (b : Bracket K) : Prop where
  start_le : start.lo ≤ b.lo
  lt : b.lo < b.hi
  le_start : b.hi ≤ start.hi
  width : b.hi - b.lo = (start.hi - start.lo) / 2 ^ k
  above : b.lo = start.lo ∨ 1 < g b.lo
  below : b.hi = start.hi ∨ g b.hi ≤ 1

theorem halved_start (g : K → K) (h : start.lo < start.hi) : Halved g start 0 start :=
  ⟨le_rfl, h, le_rfl, by simp, .inl rfl, .inl rfl⟩

theorem narrow_add (p : K → Option K) (j k : ℕ) (b : Bracket K) :
    narrow p (j + k) b = (narrow p j b).bind (narrow p k) := by
  induction j generalizing b with
  | zero => simp [narrow]
  | succ j ih =>
    rw [Nat.succ_add, narrow, narrow, Option.bind_assoc]
    exact congrArg _ (funext ih)

theorem exists_narrow_of_forall (hp : ∀ z, ∃ y, p z = some y) (k : ℕ) (b : Bracket K) :
    ∃ b', narrow p k b = some b' := by
  induction k generalizing b with
  | zero => exact ⟨b, rfl⟩
  | succ k ih =>
    obtain ⟨y, hy⟩ := hp b.middle
    rw [narrow, halve, hy, Option.map_some, Option.bind_some]
    exact ih _

variable [IsStrictOrderedRing K]

theorem middle_eq (b : Bracket K) : b.middle = (b.lo + b.hi) / 2 := by
  norm_num [middle]
  ring

theorem lo_lt_middle (h : b.lo < b.hi) : b.lo < b.middle := by
  rw [middle_eq]
  linarith

theorem middle_lt_hi (h : b.lo < b.hi) : b.middle < b.hi := by
  rw [middle_eq]
  linarith

/-- **One halving** takes the half in which the function may cross one. -/
theorem exists_halve (hp : ∀ z, p z = some (g z)) (h : Halved g start k b) :
    ∃ b', halve p b = some b' ∧ Halved g start (k + 1) b' := by
  have hone : (1.0 : K) = 1 := by norm_num
  have hlo := lo_lt_middle h.lt
  have hhi := middle_lt_hi h.lt
  have hhalf : (start.hi - start.lo) / 2 ^ (k + 1) = (b.hi - b.lo) / 2 := by
    rw [h.width, pow_succ]
    field_simp
  refine ⟨_, by rw [halve, hp, Option.map_some, hone], ?_⟩
  split_ifs with habove
  · refine ⟨h.start_le.trans hlo.le, hhi, h.le_start, ?_, .inr habove, h.below⟩
    rw [hhalf, middle_eq]
    ring
  · refine ⟨h.start_le, hlo, hhi.le.trans h.le_start, ?_, h.above, .inr (not_lt.1 habove)⟩
    rw [hhalf, middle_eq]
    ring

theorem exists_narrow (hp : ∀ z, p z = some (g z)) (h : Halved g start j b) (k : ℕ) :
    ∃ b', narrow p k b = some b' ∧ Halved g start (j + k) b' := by
  induction k generalizing j b with
  | zero => exact ⟨b, rfl, h⟩
  | succ k ih =>
    obtain ⟨b', hb', hhalved⟩ := exists_halve hp h
    obtain ⟨b'', hb'', hnarrowed⟩ := ih hhalved
    refine ⟨b'', ?_, by rwa [← Nat.add_assoc, Nat.add_right_comm]⟩
    rw [narrow, hb', Option.bind_some, hb'']

theorem exists_narrow_start (g : K → K) (hlt : start.lo < start.hi) (k : ℕ) :
    ∃ b, narrow (fun z => some (g z)) k start = some b ∧ Halved g start k b := by
  obtain ⟨b, hb, h⟩ := exists_narrow (fun _ => rfl) (halved_start g hlt) k
  rw [Nat.zero_add] at h
  exact ⟨b, hb, h⟩

/-- **Where a falling function crosses one**, the middle of the bracket is at most half its width away. -/
theorem Halved.abs_middle_sub_le (h : Halved g start k b)
    (hfall : StrictAntiOn g (Set.Icc start.lo start.hi)) {z : K} (hz : z ∈ Set.Icc start.lo start.hi)
    (hone : g z = 1) : |b.middle - z| ≤ (start.hi - start.lo) / 2 ^ k / 2 := by
  have hlo : b.lo ∈ Set.Icc start.lo start.hi := ⟨h.start_le, h.lt.le.trans h.le_start⟩
  have hhi : b.hi ∈ Set.Icc start.lo start.hi := ⟨h.start_le.trans h.lt.le, h.le_start⟩
  have hlower : b.lo ≤ z := by
    rcases h.above with heq | habove
    · exact heq ▸ hz.1
    · rw [← hone] at habove
      exact ((hfall.lt_iff_gt hz hlo).1 habove).le
  have hupper : z ≤ b.hi := by
    rcases h.below with heq | hbelow
    · exact heq ▸ hz.2
    · rw [← hone] at hbelow
      exact (hfall.le_iff_ge hhi hz).1 hbelow
  rw [← h.width, middle_eq, abs_le]
  constructor <;> linarith

end Halving

end Bracket

/-! ## The transform -/

theorem smaller_eq {K : Type} [LinearOrder K] (a b : K) : smaller a b = min a b := by
  rw [smaller, if_pos (beq_self_eq_true a)]
  rcases lt_or_ge b a with h | h
  · rw [if_pos h, min_eq_right h.le]
  · rw [if_neg (not_lt.2 h), min_eq_left h]

theorem total_eq {K : Type} [Field K] (xs : List K) : total xs = xs.sum := by
  rw [total, neg_zero, List.sum_eq_foldl]

theorem mapM_some {K : Type} (f : ℕ → K) (steps : List ℕ) :
    (steps.mapM fun i => some (f i)) = some (steps.map f) := List.mapM_pure

section Transform

variable {K : Type} [Field K] [LinearOrder K] [Elementary K] {p : K → Option K} {p0 : K → K} {z : K}

theorem exists_laplace (hp : ∀ t, p t = some (p0 t)) (z : K) : ∃ v, laplace p z = some v := by
  unfold laplace
  simp only [hp, Option.map_some, mapM_some, Option.bind_eq_bind, Option.bind_some]
  split_ifs <;> exact ⟨_, rfl⟩

theorem exists_map_laplace (hp : ∀ t, p t = some (p0 t)) (nuC z : K) :
    ∃ y, (laplace p z).map (nuC * ·) = some y := by
  obtain ⟨v, hv⟩ := exists_laplace hp z
  exact ⟨nuC * v, by rw [hv, Option.map_some]⟩

theorem exists_slowestRate (hp : ∀ t, p t = some (p0 t)) (nuC : K) :
    ∃ rate, slowestRate p nuC = some rate := by
  obtain ⟨b, hb⟩ := Bracket.exists_narrow_of_forall (exists_map_laplace hp nuC) 60 (poleBracket nuC)
  exact ⟨nuC - b.middle, by rw [slowestRate, dominantPole, hb, Option.map_some]⟩

theorem dominantPole_eq {g : K → K} {nuC : K} (hg : ∀ z, (laplace p z).map (nuC * ·) = some (g z)) :
    dominantPole p nuC = Bracket.narrow (fun z => some (g z)) 60 (poleBracket nuC) := by
  simp only [dominantPole, hg]

variable [FloorRing K] [IsExact K] [IsStrictOrderedRing K]

/-- **The transform at a rate of at most two**: the trapezoid sum over two thousand steps, and behind the
time axis the last value, which goes on for ever. -/
theorem laplace_eq_of_le (hexp : exp (0 : K) = 1) (hp : ∀ t, p t = some (p0 t)) (hz : 0 < z)
    (hle : z ≤ 2) :
    laplace p z = some (trapezoid (fun t => p0 t * exp (-z * t)) 0.01 2000 +
      p0 20 * exp (-z * 20) / z) := by
  have hend : (tableEnd : K) = 20 := by norm_num [tableEnd]
  have hstop : smaller (20 : K) (40.0 / z) = 20 := by
    rw [smaller_eq, min_eq_left]
    rw [le_div_iff₀ hz]
    norm_num
    linarith
  have hstep : smaller (1.0 / (40.0 * z)) 0.01 = 0.01 := by
    rw [smaller_eq, min_eq_right]
    rw [le_div_iff₀ (by positivity)]
    norm_num
    linarith
  have hcount : toIndex (larger (ceil (20 / 0.01 : K)) 1.0) = 2000 := by
    have hquotient : (20 / 0.01 : K) = ((2000 : ℕ) : K) := by norm_num
    rw [hquotient, IsExact.ceil_eq, Int.ceil_natCast, larger_eq, max_eq_left (by norm_num),
      Int.cast_natCast, toIndex_natCast]
  unfold laplace
  simp only [hp, Option.map_some, mapM_some, Option.bind_eq_bind, Option.bind_some, hend, hstop, hstep,
    hcount, lt_irrefl, if_false, total_eq]
  have hwidth : (20 : K) / (2000 : ℕ) = 0.01 := by norm_num
  have htimes : ((2000 : ℕ) : K) * 0.01 = 20 := by norm_num
  have hsum : ∀ f : ℕ → K, ((List.range' 1 (2000 - 1)).map f).sum = ∑ k ∈ Finset.Ico 1 2000, f k :=
    fun _ => rfl
  have hhalf : (0.5 : K) = 1 / 2 := by norm_num
  rw [trapezoid_of_pos _ _ (by norm_num), hwidth, htimes, hsum, mul_zero, hexp, hhalf]
  refine congrArg some ?_
  ring

end Transform

/-! ## The rate -/

section Rate

theorem poleBracket_width {K : Type} [Field K] (nuC : K) :
    (poleBracket nuC).hi - (poleBracket nuC).lo = (1 - 1e-9) * nuC := by
  rw [poleBracket]
  ring

variable {K : Type} [Field K] [LinearOrder K] [IsStrictOrderedRing K] {nuC : K}

theorem poleBracket_lo_pos (hnuC : 0 < nuC) : 0 < (poleBracket nuC).lo :=
  mul_pos (by norm_num) hnuC

theorem poleBracket_lt (hnuC : 0 < nuC) : (poleBracket nuC).lo < (poleBracket nuC).hi := by
  rw [← sub_pos, poleBracket_width]
  exact mul_pos (by norm_num) hnuC

variable [FloorRing K] [Elementary K] [IsExact K]

/-- **The rate of the slowest mode**, for every static polarization, where `g` is `ν_c` times its transform.
At each of the sixty halvings the bracket is inside the one at the start, and `g` is above one at its lower
end and not above one at its upper end, if these have moved. The bracket shrinks to `2 ^ (-60)` of its width
at the start. So the rate is between zero and `ν_c`; and if `g` falls and is one somewhere in the bracket at
the start, then `ν_c` less the rate is within `ν_c / 2 ^ 61` of this place. -/
theorem StaticField.slowestRate_isPole (field : StaticField K) (hnuC : 0 < nuC) :
    ∃ g : K → K, (∀ z, (laplace field.value z).map (nuC * ·) = some (g z)) ∧
      (∀ k ≤ 60, ∃ b, Bracket.narrow (fun z => some (g z)) k ⟨1e-9 * nuC, nuC⟩ = some b ∧
        Bracket.Halved g ⟨1e-9 * nuC, nuC⟩ k b ∧
        Bracket.narrow (fun z => some (g z)) (60 - k) b = dominantPole field.value nuC) ∧
      ∃ b, dominantPole field.value nuC = some b ∧
        Bracket.Halved g ⟨1e-9 * nuC, nuC⟩ 60 b ∧ b.hi - b.lo = (1 - 1e-9) * nuC / 2 ^ 60 ∧
        ∃ rate, slowestRate field.value nuC = some rate ∧ 0 < rate ∧ rate < nuC ∧
          (StrictAntiOn g (Set.Icc (1e-9 * nuC) nuC) →
            ∀ z ∈ Set.Icc (1e-9 * nuC) nuC, g z = 1 → |nuC - rate - z| < nuC / 2 ^ 61) := by
  obtain ⟨p0, hp0⟩ := field.exists_value
  choose g hg using exists_map_laplace hp0 nuC
  have hsearch := dominantPole_eq hg
  refine ⟨g, hg, fun k hk => ?_, ?_⟩
  · obtain ⟨b, hb, hhalved⟩ := Bracket.exists_narrow_start g (poleBracket_lt hnuC) k
    refine ⟨b, hb, hhalved, ?_⟩
    rw [hsearch, ← Nat.add_sub_cancel' hk, Bracket.narrow_add, Nat.add_sub_cancel_left]
    exact congrArg (Option.bind · _) hb.symm
  · obtain ⟨b, hb, hhalved⟩ := Bracket.exists_narrow_start g (poleBracket_lt hnuC) 60
    have hwidth := hhalved.width
    rw [poleBracket_width] at hwidth
    have hlo := hhalved.start_le.trans_lt (Bracket.lo_lt_middle hhalved.lt)
    have hhi := (Bracket.middle_lt_hi hhalved.lt).trans_le hhalved.le_start
    refine ⟨b, hsearch.trans hb, hhalved, hwidth, nuC - b.middle, ?_, sub_pos.2 hhi,
      sub_lt_self _ ((poleBracket_lo_pos hnuC).trans hlo), fun hfall z hz hone => ?_⟩
    · rw [slowestRate, hsearch, hb, Option.map_some]
    · have hnear := hhalved.abs_middle_sub_le hfall hz hone
      rw [← hhalved.width, hwidth] at hnear
      rw [sub_sub_cancel]
      refine hnear.trans_lt ?_
      norm_num
      linarith

end Rate

/-! ## A falling transform -/

section Falling

/-- The transform of a polarization at a rate of at most two, in real numbers. -/
noncomputable def slowTransform (p0 : ℝ → ℝ) (z : ℝ) : ℝ :=
  trapezoid (fun t => p0 t * Real.exp (-z * t)) 0.01 2000 + p0 20 * Real.exp (-z * 20) / z

variable {p0 : ℝ → ℝ}

/-- **The transform of a polarization that is not negative falls**, and strictly so if something is left of
it behind the time axis. -/
theorem strictAntiOn_slowTransform (hp0 : ∀ t, 0 ≤ t → 0 ≤ p0 t) (hend : 0 < p0 20) :
    StrictAntiOn (slowTransform p0) (Set.Ioi 0) := by
  intro z hz w hw hlt
  have hdecay : ∀ t : ℝ, 0 ≤ t → Real.exp (-w * t) ≤ Real.exp (-z * t) := fun t ht =>
    Real.exp_le_exp.2 (mul_le_mul_of_nonneg_right (neg_le_neg hlt.le) ht)
  have hbody : trapezoid (fun t => p0 t * Real.exp (-w * t)) 0.01 2000 ≤
      trapezoid (fun t => p0 t * Real.exp (-z * t)) 0.01 2000 :=
    trapezoid_mono (by norm_num) (fun t ht => mul_le_mul_of_nonneg_left (hdecay t ht) (hp0 t ht)) 2000
  have htail : p0 20 * Real.exp (-w * 20) / w < p0 20 * Real.exp (-z * 20) / z :=
    calc p0 20 * Real.exp (-w * 20) / w ≤ p0 20 * Real.exp (-z * 20) / w :=
          div_le_div_of_nonneg_right (mul_le_mul_of_nonneg_left (hdecay 20 (by norm_num)) hend.le)
            (le_of_lt hw)
      _ < p0 20 * Real.exp (-z * 20) / z :=
          div_lt_div_of_pos_left (mul_pos hend (Real.exp_pos _)) hz hlt
  exact add_lt_add_of_le_of_lt hbody htail

theorem continuousOn_slowTransform (p0 : ℝ → ℝ) : ContinuousOn (slowTransform p0) (Set.Ioi 0) := by
  have hbody : ∀ i, Continuous fun z : ℝ => trapezoid (fun t => p0 t * Real.exp (-z * t)) 0.01 i := by
    intro i
    induction i with
    | zero => exact continuous_const
    | succ i ih =>
      simp only [trapezoid_succ]
      fun_prop
  refine (hbody 2000).continuousOn.add (ContinuousOn.div ?_ continuousOn_id fun z hz => ne_of_gt hz)
  fun_prop

theorem trapezoid_exp_le_sub {rate : ℝ} (hrate : 0 < rate) (dt : ℝ) (i : ℕ) :
    trapezoid (fun t => Real.exp (-(rate * t))) dt i ≤
      (dt / 2 + 1 / rate) * (1 - Real.exp (-(rate * (i * dt)))) := by
  induction i with
  | zero => simp [trapezoid]
  | succ i ih =>
    have hnext : Real.exp (-(rate * (i * dt))) =
        Real.exp (-(rate * ((i + 1 : ℕ) * dt))) * Real.exp (rate * dt) := by
      rw [← Real.exp_add]
      congr 1
      push_cast
      ring
    have hstep : (rate * dt + 1) * Real.exp (-(rate * ((i + 1 : ℕ) * dt))) ≤
        Real.exp (-(rate * (i * dt))) := by
      rw [hnext, mul_comm]
      exact mul_le_mul_of_nonneg_left (Real.add_one_le_exp _) (Real.exp_pos _).le
    have hslice : dt * Real.exp (-(rate * ((i + 1 : ℕ) * dt))) ≤
        1 / rate * (Real.exp (-(rate * (i * dt))) - Real.exp (-(rate * ((i + 1 : ℕ) * dt)))) := by
      rw [one_div, ← div_eq_inv_mul, le_div_iff₀ hrate]
      linarith
    have hhalf : (0.5 : ℝ) = 1 / 2 := by norm_num
    rw [trapezoid_succ, hhalf]
    linarith

/-- The sum of an exponential decay is not above its integral by more than half a step. -/
theorem trapezoid_exp_le {rate dt : ℝ} (hrate : 0 < rate) (hdt : 0 ≤ dt) (i : ℕ) :
    trapezoid (fun t => Real.exp (-(rate * t))) dt i ≤ dt / 2 + 1 / rate :=
  (trapezoid_exp_le_sub hrate dt i).trans
    (mul_le_of_le_one_right (by positivity) (sub_le_self _ (Real.exp_pos _).le))

/-! ## A Lorentzian distribution -/

/-- The polarization of a Lorentzian distribution in zero field. -/
noncomputable def lorentzPolarization (t : ℝ) : ℝ :=
  Formula.oneThird + Formula.twoThirds * (1 - 0.25 * t) * Real.exp (-(0.25 * t))

theorem lorentzPolarization_eq (t : ℝ) :
    lorentzPolarization t = 1 / 3 + 2 / 3 * (1 - t / 4) * Real.exp (-(t / 4)) := by
  have hquarter : 0.25 * t = t / 4 := by
    norm_num
    ring
  rw [lorentzPolarization, hquarter]
  norm_num [Formula.oneThird, Formula.twoThirds]

theorem le_lorentzPolarization {t : ℝ} (ht : 0 ≤ t) : 1 / 6 ≤ lorentzPolarization t := by
  have hgrowth := Real.quadratic_le_exp_of_nonneg (show 0 ≤ t / 4 by positivity)
  have hdip : (t / 4 - 1) * Real.exp (-(t / 4)) ≤ 1 / 4 := by
    rw [Real.exp_neg, ← div_eq_mul_inv, div_le_iff₀ (Real.exp_pos _)]
    nlinarith [sq_nonneg (t / 4 - 3)]
  rw [lorentzPolarization_eq]
  linarith

theorem lorentzPolarization_le (t : ℝ) :
    lorentzPolarization t ≤ 1 / 3 + 2 / 3 * Real.exp (-(1 / 2 * t)) := by
  have hsquare : Real.exp (-(1 / 2 * t)) = Real.exp (-(t / 4)) * Real.exp (-(t / 4)) := by
    rw [← Real.exp_add]
    congr 1
    ring
  have hle : 1 - t / 4 ≤ Real.exp (-(t / 4)) := by linarith [Real.add_one_le_exp (-(t / 4))]
  have hproduct := mul_le_mul_of_nonneg_right hle (Real.exp_pos (-(t / 4))).le
  rw [lorentzPolarization_eq, hsquare]
  linarith

theorem slowTransform_two_le : slowTransform lorentzPolarization 2 ≤ 1 / 2 := by
  have hterms : ∀ t : ℝ, 0 ≤ t → lorentzPolarization t * Real.exp (-2 * t) ≤
      1 / 3 * Real.exp (-(2 * t)) + 2 / 3 * Real.exp (-(5 / 2 * t)) := by
    intro t _
    have hproduct : Real.exp (-(5 / 2 * t)) = Real.exp (-(1 / 2 * t)) * Real.exp (-(2 * t)) := by
      rw [← Real.exp_add]
      congr 1
      ring
    have hle := mul_le_mul_of_nonneg_right (lorentzPolarization_le t) (Real.exp_pos (-(2 * t))).le
    rw [neg_mul, hproduct]
    linarith
  have hbody : trapezoid (fun t => lorentzPolarization t * Real.exp (-2 * t)) 0.01 2000 ≤
      trapezoid (fun t => 1 / 3 * Real.exp (-(2 * t)) + 2 / 3 * Real.exp (-(5 / 2 * t))) 0.01 2000 :=
    trapezoid_mono (by norm_num) hterms 2000
  rw [trapezoid_linear] at hbody
  have hslow := trapezoid_exp_le (show (0 : ℝ) < 2 by norm_num) (show (0 : ℝ) ≤ 0.01 by norm_num) 2000
  have hfast := trapezoid_exp_le (show (0 : ℝ) < 5 / 2 by norm_num) (show (0 : ℝ) ≤ 0.01 by norm_num)
    2000
  have htail : lorentzPolarization 20 * Real.exp (-2 * 20) ≤ 1 / 41 := by
    have hone : lorentzPolarization 20 ≤ 1 := by
      have hdecayed : Real.exp (-(1 / 2 * 20)) ≤ 1 := Real.exp_le_one_iff.2 (by norm_num)
      linarith [lorentzPolarization_le 20]
    have hsmall : Real.exp (-2 * 20) ≤ 1 / 41 := by
      rw [show (-2 * 20 : ℝ) = -40 by norm_num, Real.exp_neg, ← one_div]
      exact one_div_le_one_div_of_le (by norm_num) (by linarith [Real.add_one_le_exp (40 : ℝ)])
    exact (mul_le_of_le_one_left (Real.exp_pos _).le hone).trans hsmall
  rw [slowTransform]
  norm_num at hslow hfast hbody ⊢
  linarith

theorem le_slowTransform_start : 1 / 2 ≤ slowTransform lorentzPolarization (1e-9 * 2) := by
  have hzero : trapezoid (fun _ => 0) (0.01 : ℝ) 2000 = 0 := by
    rw [trapezoid_of_pos _ _ (by norm_num)]
    simp
  have hbody : 0 ≤ trapezoid (fun t => lorentzPolarization t * Real.exp (-(1e-9 * 2) * t)) 0.01 2000 := by
    rw [← hzero]
    refine trapezoid_mono (by norm_num) (fun t ht => ?_) 2000
    exact mul_nonneg (by linarith [le_lorentzPolarization ht]) (Real.exp_pos _).le
  have htail : 1 / 6 * (1 / 2) ≤ lorentzPolarization 20 * Real.exp (-(1e-9 * 2) * 20) := by
    have hdecay : (1 : ℝ) / 2 ≤ Real.exp (-(1e-9 * 2) * 20) := by
      refine le_trans ?_ (Real.add_one_le_exp _)
      norm_num
    exact mul_le_mul (le_lorentzPolarization (by norm_num)) hdecay (by norm_num)
      (by linarith [le_lorentzPolarization (show (0 : ℝ) ≤ 20 by norm_num)])
  have hquotient : 1 / 2 ≤ lorentzPolarization 20 * Real.exp (-(1e-9 * 2) * 20) / (1e-9 * 2) := by
    rw [le_div_iff₀ (by norm_num)]
    refine le_trans ?_ htail
    norm_num
  exact le_add_of_nonneg_of_le hbody hquotient

theorem exists_slowTransform_eq :
    ∃ z ∈ Set.Icc (1e-9 * 2 : ℝ) 2, slowTransform lorentzPolarization z = 1 / 2 := by
  have hcontinuous : ContinuousOn (slowTransform lorentzPolarization) (Set.Icc (1e-9 * 2) 2) :=
    (continuousOn_slowTransform _).mono fun z hz => lt_of_lt_of_le (by norm_num) hz.1
  exact intermediate_value_Icc' (by norm_num) hcontinuous
    ⟨slowTransform_two_le, le_slowTransform_start⟩

end Falling

/-- A Lorentzian distribution in zero field with fast hopping, where the transform falls and there is a
pole. -/
theorem StaticField.slowestRate_isPole_lorentz :
    letI := realScalar
    StaticField.compute .lorentz (0 : ℝ) (1 / 4) = some ⟨.lorentz, 1 / 4, none⟩ ∧
      DynamicField.hopsFast (0 : ℝ) (1 / 4) 2 = true ∧
      ∃ z rate : ℝ, laplace (StaticField.value ⟨.lorentz, 1 / 4, none⟩) z = some (1 / 2) ∧
        slowestRate (StaticField.value ⟨.lorentz, 1 / 4, none⟩) (2 : ℝ) = some rate ∧
        0 < rate ∧ rate < 2 ∧ |2 - rate - z| < 2 / 2 ^ 61 := by
  let := realScalar
  have := isExact_realScalar
  have hform : FieldFamily.lorentz.usesZeroField (0 : ℝ) (1 / 4) = true := by
    norm_num [FieldFamily.usesZeroField]
  have hfast : DynamicField.hopsFast (0 : ℝ) (1 / 4) 2 = true := by
    norm_num [DynamicField.hopsFast]
  have hvalue : ∀ t : ℝ, StaticField.value ⟨.lorentz, 1 / 4, none⟩ t = some (lorentzPolarization t) := by
    intro t
    have hexp : (Elementary.exp : ℝ → ℝ) = Real.exp := rfl
    have hquarter : 1 / 4 * t = t / 4 := by ring
    have hformula : Formula.lorentzKuboToyabe (1 / 4) t = lorentzPolarization t := by
      rw [Formula.lorentzKuboToyabe, lorentzPolarization_eq, hexp, hquarter]
      norm_num [Formula.oneThird, Formula.twoThirds]
    exact congrArg some hformula
  have hlaplace : ∀ z ∈ Set.Icc (1e-9 * 2 : ℝ) 2, laplace (StaticField.value ⟨.lorentz, 1 / 4, none⟩) z =
      some (slowTransform lorentzPolarization z) := fun z hz =>
    laplace_eq_of_le Real.exp_zero hvalue (lt_of_lt_of_le (by norm_num) hz.1) hz.2
  obtain ⟨g, hg, -, b, -, -, -, rate, hrate, hpos, hlt, hnear⟩ :=
    StaticField.slowestRate_isPole ⟨.lorentz, 1 / 4, none⟩ (show (0 : ℝ) < 2 by norm_num)
  have hgEq : ∀ z ∈ Set.Icc (1e-9 * 2 : ℝ) 2, g z = 2 * slowTransform lorentzPolarization z := by
    intro z hz
    have hz' := hg z
    rw [hlaplace z hz, Option.map_some, Option.some_inj] at hz'
    exact hz'.symm
  have hfall : StrictAntiOn g (Set.Icc (1e-9 * 2) 2) := by
    have hpositive : ∀ z ∈ Set.Icc (1e-9 * 2 : ℝ) 2, z ∈ Set.Ioi 0 := fun z hz =>
      lt_of_lt_of_le (by norm_num) hz.1
    have hkept : ∀ t : ℝ, 0 ≤ t → 0 < lorentzPolarization t := fun t ht =>
      lt_of_lt_of_le (by norm_num) (le_lorentzPolarization ht)
    intro z hz w hw hlt
    rw [hgEq z hz, hgEq w hw]
    exact mul_lt_mul_of_pos_left (strictAntiOn_slowTransform (fun t ht => (hkept t ht).le)
      (hkept 20 (by norm_num)) (hpositive z hz) (hpositive w hw) hlt) two_pos
  obtain ⟨z, hz, hpole⟩ := exists_slowTransform_eq
  refine ⟨by rw [StaticField.compute, if_pos hform], hfast, z, rate, ?_, hrate, hpos, hlt, ?_⟩
  · rw [hlaplace z hz, hpole]
  · refine hnear hfall z hz ?_
    rw [hgEq z hz, hpole]
    norm_num

end MuonSpin
