import Mathlib
import MuonSpin.Numeric.Scalar

/-!
# What floating-point numbers stand for

A finite floating-point number that is not negative stands for a rational number, a mantissa times a
power of two.

* `Canonical`: the mantissas and exponents of floating-point numbers; `unpack_pack`: they survive the
  passage to bits and back;
* `Representable`, `RoundsTo`: the numbers of the format, and **what rounding keeps**: it does not cross
  a representable number, so that it leaves representable ones as they are;
* `Denotes`: the number that an unpacked number stands for. `Denotes.mul` and `Denotes.sub`: products
  and differences are rounded; `Denotes.lt_iff`, `Denotes.toNat_toUInt64`: comparison and whole part are
  those of the numbers.
-/

namespace MuonSpin

open Float.Model Float.Model.UnpackedFloat

/-! ## Dyadic numbers -/

/-- A mantissa times a power of two. -/
def dyadic (m : ℕ) (e : ℤ) : ℚ := m * 2 ^ e

section Dyadic

variable {m m' k : ℕ} {e e' : ℤ}

theorem dyadic_nonneg (m : ℕ) (e : ℤ) : 0 ≤ dyadic m e := by
  unfold dyadic
  positivity

theorem dyadic_pos (hm : 0 < m) (e : ℤ) : 0 < dyadic m e := by
  unfold dyadic
  positivity

theorem dyadic_shift (m k : ℕ) (e : ℤ) : dyadic (m * 2 ^ k) (e - k) = dyadic m e := by
  unfold dyadic
  rw [zpow_sub₀ two_ne_zero, zpow_natCast, Nat.cast_mul, Nat.cast_pow, Nat.cast_ofNat]
  field_simp

theorem dyadic_mul (m m' : ℕ) (e e' : ℤ) :
    dyadic (m * m') (e + e') = dyadic m e * dyadic m' e' := by
  unfold dyadic
  rw [zpow_add₀ two_ne_zero, Nat.cast_mul]
  ring

theorem dyadic_le_iff : dyadic m e ≤ dyadic m' e ↔ m ≤ m' := by
  unfold dyadic
  rw [mul_le_mul_iff_left₀ (by positivity), Nat.cast_le]

theorem dyadic_lt_iff : dyadic m e < dyadic m' e ↔ m < m' := by
  rw [← not_le, dyadic_le_iff, not_le]

theorem dyadic_lt_two_zpow (hm : m < 2 ^ k) (e : ℤ) : dyadic m e < 2 ^ (k + e) := by
  have hcast : (m : ℚ) < 2 ^ k := by exact_mod_cast hm
  rw [zpow_add₀ two_ne_zero, zpow_natCast]
  exact mul_lt_mul_of_pos_right hcast (by positivity)

theorem two_zpow_le_dyadic (hm : 2 ^ k ≤ m) (e : ℤ) : (2 : ℚ) ^ (k + e) ≤ dyadic m e := by
  have hcast : (2 : ℚ) ^ k ≤ m := by exact_mod_cast hm
  rw [zpow_add₀ two_ne_zero, zpow_natCast]
  exact mul_le_mul_of_nonneg_right hcast (by positivity)

theorem exponent_lt_of_two_zpow_lt {a b : ℤ} (h : (2 : ℚ) ^ a < 2 ^ b) : a < b :=
  (zpow_lt_zpow_iff_right₀ one_lt_two).1 h

end Dyadic

/-- A mantissa and an exponent as they are kept: the mantissa has 53 bits and uses all of them, unless
the exponent is the least one. -/
structure Canonical (m : ℕ) (e : ℤ) : Prop where
  lt : m < 2 ^ 53
  least_le : -1074 ≤ e
  full : 2 ^ 52 ≤ m ∨ e = -1074

/-- A number of the format, its upper end apart. -/
def Representable (b : ℚ) : Prop :=
  ∃ m : ℕ, ∃ e : ℤ, m < 2 ^ 53 ∧ -1074 ≤ e ∧ b = dyadic m e

theorem representable_natCast {n : ℕ} (h : n < 2 ^ 53) : Representable n :=
  ⟨n, 0, h, by decide, by simp [dyadic]⟩

/-- The number is rounded: no representable number is crossed. -/
def RoundsTo (v z : ℚ) : Prop :=
  ∀ b, Representable b → (v ≤ b → z ≤ b) ∧ (b ≤ v → b ≤ z)

section RoundsTo

variable {v z : ℚ}

theorem RoundsTo.refl (v : ℚ) : RoundsTo v v := fun _ _ => ⟨id, id⟩

theorem RoundsTo.eq (h : RoundsTo v z) (hv : Representable v) : z = v :=
  le_antisymm ((h v hv).1 le_rfl) ((h v hv).2 le_rfl)

end RoundsTo

/-! ## Shifting a mantissa -/

section Shift

variable {m k j : ℕ} {e : ℤ}

/-- The mantissa without its last bits, rounded to the nearest one, a half to the even one. -/
def roundedShift (m k : ℕ) : ℕ :=
  (ExtendedMantissa.ofMantissaAndAccuracy m .exact >>> k).roundedMantissa

theorem shiftRight_succ (em : ExtendedMantissa) (k : ℕ) :
    em >>> (k + 1) = (em >>> k).shiftRightOne := rfl

theorem mantissa_shiftRight (em : ExtendedMantissa) (k : ℕ) :
    (em >>> k).mantissa = em.mantissa / 2 ^ k := by
  induction k with
  | zero => exact (Nat.div_one _).symm
  | succ k ih =>
    rw [shiftRight_succ, pow_succ, ← Nat.div_div_eq_div_mul, ← ih]
    rfl

theorem shiftRight_exact (m k : ℕ) :
    ExtendedMantissa.ofMantissaAndAccuracy (m * 2 ^ k) .exact >>> k = ⟨m, false, false⟩ := by
  induction k generalizing m with
  | zero =>
    rw [pow_zero, mul_one]
    rfl
  | succ k ih =>
    rw [shiftRight_succ, pow_succ, mul_comm (2 ^ k), ← mul_assoc, ih (m * 2)]
    simp [ExtendedMantissa.shiftRightOne]

theorem le_roundedMantissa (em : ExtendedMantissa) :
    em.mantissa ≤ em.roundedMantissa ∧ em.roundedMantissa ≤ em.mantissa + 1 := by
  obtain ⟨m, round, sticky⟩ := em
  cases round <;> cases sticky <;>
    simp [ExtendedMantissa.roundedMantissa, ExtendedMantissa.accuracy, Accuracy.roundToNearestEven]
  omega

theorem roundedShift_exact (m k : ℕ) : roundedShift (m * 2 ^ k) k = m := by
  rw [roundedShift, shiftRight_exact]
  rfl

theorem roundedShift_bounds (m k : ℕ) : m / 2 ^ k ≤ roundedShift m k ∧
    roundedShift m k ≤ m / 2 ^ k + 1 := by
  have h := le_roundedMantissa (ExtendedMantissa.ofMantissaAndAccuracy m .exact >>> k)
  rw [mantissa_shiftRight] at h
  exact h

theorem le_roundedShift (h : j * 2 ^ k ≤ m) : j ≤ roundedShift m k :=
  ((Nat.le_div_iff_mul_le (Nat.two_pow_pos k)).2 h).trans (roundedShift_bounds m k).1

theorem roundedShift_le (h : m ≤ j * 2 ^ k) : roundedShift m k ≤ j := by
  rcases h.eq_or_lt with rfl | hlt
  · exact (roundedShift_exact j k).le
  · have hdiv : m / 2 ^ k < j := (Nat.div_lt_iff_lt_mul (Nat.two_pow_pos k)).2 hlt
    exact (roundedShift_bounds m k).2.trans hdiv

end Shift

/-! ## Rounding -/

/-- An unpacked number that is not negative stands for a number. -/
inductive Denotes : UnpackedFloat → ℚ → Prop
  | zero (s : Sign) : Denotes (.zero s) 0
  | finite {m : ℕ} {e : ℤ} (hm : 0 < m) (canonical : Canonical m e) (he : e ≤ 971) :
    Denotes (.finite .positive m e hm) (dyadic m e)

theorem Denotes.nonneg {u : UnpackedFloat} {v : ℚ} (h : Denotes u v) : 0 ≤ v := by
  cases h with
  | zero => exact le_rfl
  | finite => exact dyadic_nonneg _ _

theorem Denotes.representable {u : UnpackedFloat} {v : ℚ} (h : Denotes u v) : Representable v := by
  cases h with
  | zero => exact ⟨0, 0, by decide, by decide, by simp [dyadic]⟩
  | finite _ canonical => exact ⟨_, _, canonical.lt, canonical.least_le, rfl⟩

section Round

variable {m k : ℕ} {e : ℤ}

theorem targetExponent_eq (m : ℕ) (e : ℤ) :
    Format.binary64.targetExponent (totalExponent m e) = max (m.log2 + e - 52) (-1074) := by
  simp only [Format.targetExponent, totalExponent, Format.mantissaBits, Format.minExponent]
  norm_num
  omega

/-- The number of bits that a mantissa loses. -/
def lostBits (m : ℕ) (e : ℤ) : ℕ := (max (m.log2 + e - 52) (-1074) - e).toNat

theorem shiftToTargetExponent_eq (m : ℕ) (e : ℤ) :
    shiftToTargetExponent .binary64 m e .exact =
      (ExtendedMantissa.ofMantissaAndAccuracy m .exact >>> lostBits m e, e + lostBits m e) := by
  rw [shiftToTargetExponent, targetExponent_eq]
  rfl

theorem shiftToTargetExponent_of_lt (hm : m < 2 ^ 53) (he : -1074 ≤ e) :
    shiftToTargetExponent .binary64 m e .exact = (⟨m, false, false⟩, e) := by
  have hlog : m.log2 ≤ 52 := by
    rcases Nat.eq_zero_or_pos m with rfl | hpos
    · decide
    · exact Nat.lt_succ_iff.1 ((Nat.log2_lt hpos.ne').2 hm)
  have hlost : lostBits m e = 0 := by
    unfold lostBits
    omega
  rw [shiftToTargetExponent_eq, hlost]
  simp only [Nat.cast_zero, add_zero]
  rfl

theorem shiftToTargetExponent_carry (he : -1074 ≤ e) :
    shiftToTargetExponent .binary64 (2 ^ 53) e .exact = (⟨2 ^ 52, false, false⟩, e + 1) := by
  have hlost : lostBits (2 ^ 53) e = 1 := by
    rw [lostBits, Nat.log2_two_pow]
    omega
  rw [shiftToTargetExponent_eq, hlost]
  rfl

theorem div_lostBits_lt (m : ℕ) (e : ℤ) : m / 2 ^ lostBits m e < 2 ^ 53 := by
  refine (Nat.div_lt_iff_lt_mul (Nat.two_pow_pos _)).2 ?_
  rw [← pow_add]
  refine lt_of_lt_of_le Nat.lt_log2_self (Nat.pow_le_pow_right two_pos ?_)
  unfold lostBits
  omega

theorem roundedShift_lostBits_le (m : ℕ) (e : ℤ) : roundedShift m (lostBits m e) ≤ 2 ^ 53 :=
  (roundedShift_bounds m _).2.trans (div_lostBits_lt m e)

theorem least_le_add_lostBits (m : ℕ) (e : ℤ) : -1074 ≤ e + lostBits m e := by
  unfold lostBits
  omega

/-- The number with the mantissa and the exponent of a shift. -/
def ofShift (shift : ExtendedMantissa × ℤ) : UnpackedFloat :=
  if h : shift.1.mantissa = 0 then .zero .positive
  else .finite .positive shift.1.mantissa shift.2 (Nat.pos_of_ne_zero h)

theorem roundWithAccuracy_eq_ofShift (m : ℕ) (e : ℤ) :
    roundWithAccuracy .binary64 .positive m e .exact =
      ofShift (shiftToTargetExponent .binary64 (roundedShift m (lostBits m e)) (e + lostBits m e)
        .exact) := by
  unfold roundWithAccuracy
  rw [shiftToTargetExponent_eq]
  rfl

/-- The result of rounding: the mantissa without its lost bits, and one carry if it is full. -/
theorem roundWithAccuracy_eq (m : ℕ) (e : ℤ) :
    roundWithAccuracy .binary64 .positive m e .exact =
      if roundedShift m (lostBits m e) < 2 ^ 53 then
        ofShift (⟨roundedShift m (lostBits m e), false, false⟩, e + lostBits m e)
      else .finite .positive (2 ^ 52) (e + lostBits m e + 1) (by decide) := by
  have hleast := least_le_add_lostBits m e
  have hle := roundedShift_lostBits_le m e
  rw [roundWithAccuracy_eq_ofShift]
  by_cases hfits : roundedShift m (lostBits m e) < 2 ^ 53
  · rw [if_pos hfits, shiftToTargetExponent_of_lt hfits hleast]
  · have hfull : roundedShift m (lostBits m e) = 2 ^ 53 := by omega
    rw [if_neg hfits, hfull, shiftToTargetExponent_carry hleast]
    rfl

/-- A number whose mantissa is full, or whose exponent is below the least one. -/
def Wide (m : ℕ) (e : ℤ) : Prop := 2 ^ 52 ≤ m ∨ e ≤ -1074

theorem Wide.add_lostBits (h : Wide m e) (hm : 0 < m) :
    e + lostBits m e = max (m.log2 + e - 52) (-1074) := by
  have hlog : 2 ^ 52 ≤ m → 52 ≤ m.log2 := fun hle => (Nat.le_log2 hm.ne').2 hle
  unfold lostBits
  rcases h with h | h
  · have := hlog h
    omega
  · omega

/-- The numbers of the format above a number are multiples of the power that its mantissa counts. -/
theorem Wide.exponent_le {mb : ℕ} {eb : ℤ} (h : Wide m e) (hm : 0 < m) (hmb : mb < 2 ^ 53)
    (heb : -1074 ≤ eb) (hle : dyadic m e ≤ dyadic mb eb) : e + lostBits m e ≤ eb := by
  have hlower : (2 : ℚ) ^ (m.log2 + e) ≤ dyadic m e :=
    two_zpow_le_dyadic (Nat.log2_self_le hm.ne') e
  have hupper : dyadic mb eb < 2 ^ ((53 : ℕ) + eb) := dyadic_lt_two_zpow hmb eb
  have hlt : (m.log2 : ℤ) + e < (53 : ℕ) + eb :=
    exponent_lt_of_two_zpow_lt (hlower.trans_lt (hle.trans_lt hupper))
  rw [h.add_lostBits hm]
  push_cast at hlt
  omega

/-- A multiple of the power that a rounded mantissa counts, seen from the mantissa before. -/
theorem dyadic_add_lostBits (j : ℕ) (m : ℕ) (e : ℤ) :
    dyadic j (e + lostBits m e) = dyadic (j * 2 ^ lostBits m e) e := by
  rw [← dyadic_shift j (lostBits m e) (e + lostBits m e), add_sub_cancel_right]

theorem Wide.full (h : Wide m e) (hm : 0 < m) :
    2 ^ 52 ≤ roundedShift m (lostBits m e) ∨ e + lostBits m e = -1074 := by
  by_cases hmin : e + lostBits m e = -1074
  · exact .inr hmin
  · have hexp := h.add_lostBits hm
    have hlost : m.log2 = 52 + lostBits m e := by omega
    refine .inl (le_roundedShift ?_)
    rw [← pow_add, ← hlost]
    exact Nat.log2_self_le hm.ne'

/-- **Rounding a mantissa** does not cross a number of the format. -/
theorem Wide.roundsTo (h : Wide m e) (hm : 0 < m) :
    RoundsTo (dyadic m e) (dyadic (roundedShift m (lostBits m e)) (e + lostBits m e)) := by
  rintro b ⟨mb, eb, hmb, heb, rfl⟩
  have hmultiple : e + lostBits m e ≤ eb → ∃ j : ℕ,
      dyadic mb eb = dyadic j (e + lostBits m e) := by
    intro hle
    obtain ⟨d, hd⟩ := Int.le.dest hle
    refine ⟨mb * 2 ^ d, ?_⟩
    rw [← dyadic_shift mb d eb, ← hd, add_sub_cancel_right]
  constructor
  · intro hle
    obtain ⟨j, hj⟩ := hmultiple (h.exponent_le hm hmb heb hle)
    rw [hj, dyadic_add_lostBits, dyadic_le_iff] at hle
    rw [hj, dyadic_le_iff]
    exact roundedShift_le hle
  · intro hle
    by_cases heb' : e + lostBits m e ≤ eb
    · obtain ⟨j, hj⟩ := hmultiple heb'
      rw [hj, dyadic_add_lostBits, dyadic_le_iff] at hle
      rw [hj, dyadic_le_iff]
      exact le_roundedShift hle
    · -- The mantissa is full: all numbers with a smaller exponent are below.
      have hfull := (h.full hm).resolve_right fun hmin => heb' (hmin ▸ heb)
      have hupper : dyadic mb eb < 2 ^ ((53 : ℕ) + eb) := dyadic_lt_two_zpow hmb eb
      have hlower := two_zpow_le_dyadic hfull (e + lostBits m e)
      have hpow : (2 : ℚ) ^ ((53 : ℕ) + eb) ≤ 2 ^ ((52 : ℕ) + (e + lostBits m e)) :=
        zpow_le_zpow_right₀ one_le_two (by push_cast; omega)
      exact (hupper.trans_le (hpow.trans hlower)).le

theorem exponent_le_of_dyadic_le {m : ℕ} {e : ℤ} (hm : 2 ^ 52 ≤ m) (h : dyadic m e ≤ 2 ^ 60) :
    e ≤ 8 := by
  have hlower := (two_zpow_le_dyadic hm e).trans h
  have hexp : ((52 : ℕ) : ℤ) + e ≤ (60 : ℕ) :=
    (zpow_le_zpow_iff_right₀ one_lt_two).1 (by simpa using hlower)
  push_cast at hexp
  omega

/-- **Rounding** gives a number of the format, and crosses none. -/
theorem Wide.denotes (h : Wide m e) (hm : 0 < m) (hv : dyadic m e ≤ 2 ^ 60) :
    ∃ z, RoundsTo (dyadic m e) z ∧
      Denotes (roundWithAccuracy .binary64 .positive m e .exact) z := by
  have hround := h.roundsTo hm
  have hz : dyadic (roundedShift m (lostBits m e)) (e + lostBits m e) ≤ 2 ^ 60 := by
    refine (hround (2 ^ 60) ⟨1, 60, by decide, by decide, ?_⟩).1 hv
    simp [dyadic]
  refine ⟨_, hround, ?_⟩
  have hleast := least_le_add_lostBits m e
  have hle := roundedShift_lostBits_le m e
  rw [roundWithAccuracy_eq]
  by_cases hfits : roundedShift m (lostBits m e) < 2 ^ 53
  · rw [if_pos hfits]
    rcases Nat.eq_zero_or_pos (roundedShift m (lostBits m e)) with h0 | hpos
    · rw [h0]
      simpa [ofShift, dyadic] using Denotes.zero .positive
    · rw [ofShift, dif_neg hpos.ne']
      refine .finite hpos ⟨hfits, hleast, h.full hm⟩ ?_
      rcases h.full hm with hfull | hmin
      · have := exponent_le_of_dyadic_le hfull hz
        omega
      · omega
  · have hcarry : roundedShift m (lostBits m e) = 2 ^ 52 * 2 ^ 1 := by omega
    have hvalue : dyadic (roundedShift m (lostBits m e)) (e + lostBits m e) =
        dyadic (2 ^ 52) (e + lostBits m e + 1) := by
      rw [hcarry, ← dyadic_shift (2 ^ 52) 1 (e + lostBits m e + 1), Nat.cast_one,
        add_sub_cancel_right]
    rw [if_neg hfits, hvalue]
    rw [hvalue] at hz
    refine .finite _ ⟨by decide, by omega, .inl le_rfl⟩ ?_
    have := exponent_le_of_dyadic_le le_rfl hz
    omega

/-- **Rounding a mantissa of any size**, which is widened first. -/
theorem denotes_round (hm : 0 < m) (hv : dyadic m e ≤ 2 ^ 60) :
    ∃ z, RoundsTo (dyadic m e) z ∧
      Denotes (UnpackedFloat.round .binary64 .positive m e) z := by
  have hshift : ∀ s : ℕ, UnpackedFloat.round .binary64 .positive m e =
      roundWithAccuracy .binary64 .positive (m * 2 ^ s) (e - s) .exact →
      Wide (m * 2 ^ s) (e - s) → ∃ z, RoundsTo (dyadic m e) z ∧
        Denotes (UnpackedFloat.round .binary64 .positive m e) z := by
    intro s heq hwide
    have hpos : 0 < m * 2 ^ s := Nat.mul_pos hm (Nat.two_pow_pos s)
    rw [← dyadic_shift m s e] at hv ⊢
    rw [heq]
    exact hwide.denotes hpos hv
  refine hshift (e - max (m.log2 + e - 52) (-1074)).toNat ?_ ?_
  · unfold UnpackedFloat.round decreaseExponent
    simp only [targetExponent_eq, Nat.shiftLeft_eq]
  · by_cases hmin : e - (e - max (m.log2 + e - 52) (-1074)).toNat ≤ -1074
    · exact .inr hmin
    · -- The widened mantissa has its leading bit in front.
      refine .inl ?_
      calc 2 ^ 52 ≤ 2 ^ (m.log2 + (e - max (m.log2 + e - 52) (-1074)).toNat) :=
            Nat.pow_le_pow_right two_pos (by omega)
        _ = 2 ^ m.log2 * 2 ^ (e - max (m.log2 + e - 52) (-1074)).toNat := pow_add _ _ _
        _ ≤ m * 2 ^ (e - max (m.log2 + e - 52) (-1074)).toNat :=
            Nat.mul_le_mul_right _ (Nat.log2_self_le hm.ne')

end Round

/-! ## Operations -/

section Operations

variable {a b : UnpackedFloat} {v w : ℚ}

theorem Denotes.mul (ha : Denotes a v) (hb : Denotes b w) (hvw : v * w ≤ 2 ^ 60) :
    ∃ z, RoundsTo (v * w) z ∧ Denotes (UnpackedFloat.mul .binary64 a b) z := by
  cases ha with
  | zero s =>
    rw [zero_mul]
    refine ⟨0, .refl 0, ?_⟩
    cases hb <;> exact .zero _
  | @finite m e hm ha =>
    cases hb with
    | zero t =>
      rw [mul_zero]
      exact ⟨0, .refl 0, .zero _⟩
    | @finite m' e' hm' hb =>
      have hwide : Wide (m * m') (e + e') := by
        rcases ha.full with hfull | rfl
        · exact .inl (hfull.trans (Nat.le_mul_of_pos_right m hm'))
        · rcases hb.full with hfull | rfl
          · exact .inl (hfull.trans (Nat.le_mul_of_pos_left m' hm))
          · exact .inr (by decide)
      rw [← dyadic_mul] at hvw ⊢
      exact hwide.denotes (Nat.mul_pos hm hm') hvw

theorem dyadic_decreaseExponent (m : ℕ) {e e' : ℤ} (h : e' ≤ e) :
    dyadic (decreaseExponent m e e').1 e' = dyadic m e := by
  obtain ⟨s, rfl⟩ : ∃ s : ℕ, e' = e - s := ⟨(e - e').toNat, by omega⟩
  have hs : (e - (e - s)).toNat = s := by omega
  rw [decreaseExponent, hs, Nat.shiftLeft_eq, dyadic_shift]

theorem denotes_normalize (d : ℕ) {e : ℤ} (hv : dyadic d e ≤ 2 ^ 60) :
    ∃ z, RoundsTo (dyadic d e) z ∧
      Denotes (UnpackedFloat.normalize .binary64 (d : ℤ) e .positive) z := by
  rcases Nat.eq_zero_or_pos d with rfl | hd
  · have hzero : dyadic 0 e = 0 := by simp [dyadic]
    rw [hzero]
    exact ⟨0, .refl 0, .zero _⟩
  · have hround : UnpackedFloat.normalize .binary64 (d : ℤ) e .positive =
        UnpackedFloat.round .binary64 .positive d e := by
      have hgt : compare (d : ℤ) 0 = .gt := Int.compare_eq_gt.2 (by omega)
      rw [UnpackedFloat.normalize, hgt]
      rfl
    rw [hround]
    exact denotes_round hd hv

theorem Denotes.sub (ha : Denotes a v) (hb : Denotes b w) (hwv : w ≤ v) (hv : v ≤ 2 ^ 60) :
    ∃ z, RoundsTo (v - w) z ∧ Denotes (UnpackedFloat.sub .binary64 a b) z := by
  cases ha with
  | zero s =>
    cases hb with
    | zero t =>
      rw [sub_zero]
      refine ⟨0, .refl 0, ?_⟩
      cases s <;> cases t <;> exact .zero _
    | finite hm' => exact absurd hwv (not_le.2 (dyadic_pos hm' _))
  | @finite m e hm ha he =>
    cases hb with
    | zero t =>
      rw [sub_zero]
      exact ⟨_, .refl _, .finite hm ha he⟩
    | @finite m' e' hm' hb he' =>
      -- Both numbers are taken as multiples of the smaller power.
      have hm₁ := dyadic_decreaseExponent m (min_le_left e e')
      have hm₂ := dyadic_decreaseExponent m' (min_le_right e e')
      have hsub : UnpackedFloat.sub .binary64 (.finite .positive m e hm) (.finite .positive m' e' hm') =
          UnpackedFloat.normalize .binary64 ((decreaseExponent m e (min e e')).1 -
            (decreaseExponent m' e' (min e e')).1) (min e e') .positive := rfl
      rw [hsub]
      rw [← hm₁, ← hm₂] at hwv ⊢
      rw [← hm₁] at hv
      obtain ⟨d, hd⟩ := Nat.exists_eq_add_of_le (dyadic_le_iff.1 hwv)
      rw [hd] at hv ⊢
      have hdiff : dyadic ((decreaseExponent m' e' (min e e')).1 + d) (min e e') -
          dyadic (decreaseExponent m' e' (min e e')).1 (min e e') = dyadic d (min e e') := by
        simp only [dyadic, Nat.cast_add]
        ring
      rw [hdiff, Nat.cast_add, add_sub_cancel_left]
      exact denotes_normalize d ((dyadic_le_iff.2 (Nat.le_add_left d _)).trans hv)

/-- The larger of two exponents decides, then the larger mantissa. -/
theorem dyadic_lt_of_exponent_lt {m m' : ℕ} {e e' : ℤ} (h : Canonical m e) (h' : Canonical m' e')
    (he : e < e') : dyadic m e < dyadic m' e' := by
  have hfull : 2 ^ 52 ≤ m' := h'.full.resolve_right fun hmin => by
    have := h.least_le
    omega
  have hupper := dyadic_lt_two_zpow h.lt e
  have hlower := two_zpow_le_dyadic hfull e'
  have hpow : (2 : ℚ) ^ ((53 : ℕ) + e) ≤ 2 ^ ((52 : ℕ) + e') :=
    zpow_le_zpow_right₀ one_le_two (by push_cast; omega)
  exact hupper.trans_le (hpow.trans hlower)

theorem Denotes.lt_iff (ha : Denotes a v) (hb : Denotes b w) : a.lt b = true ↔ v < w := by
  cases ha with
  | zero s =>
    cases hb with
    | zero t => simp [UnpackedFloat.lt, UnpackedFloat.compare]
    | finite hm' => simpa [UnpackedFloat.lt, UnpackedFloat.compare] using dyadic_pos hm' _
  | @finite m e hm ha =>
    cases hb with
    | zero t =>
      simpa [UnpackedFloat.lt, UnpackedFloat.compare] using (dyadic_pos hm e).le
    | @finite m' e' hm' hb =>
      have hcompare : UnpackedFloat.lt (.finite .positive m e hm) (.finite .positive m' e' hm') =
          (some ((compare e e').then (compare m m')) == some .lt) := rfl
      rw [hcompare]
      rcases lt_trichotomy e e' with he | rfl | he
      · simp [Int.compare_eq_lt.2 he, dyadic_lt_of_exponent_lt ha hb he]
      · simp [dyadic_lt_iff, Nat.compare_eq_lt]
      · simp [Int.compare_eq_gt.2 he, (dyadic_lt_of_exponent_lt hb ha he).le]

theorem floor_dyadic_shift (m k : ℕ) : ⌊dyadic m (-k)⌋₊ = m / 2 ^ k := by
  have hdiv : dyadic m (-k) = (m : ℚ) / (2 ^ k : ℕ) := by
    rw [dyadic, zpow_neg, zpow_natCast, Nat.cast_pow, Nat.cast_ofNat, div_eq_mul_inv]
  rw [hdiv, Nat.floor_div_eq_div]

theorem roundToInt_eq (m : ℕ) (e : ℤ) : roundToInt .positive m e = ⌊dyadic m e⌋₊ := by
  rcases le_total 0 e with he | he
  · obtain ⟨k, rfl⟩ := Int.eq_ofNat_of_zero_le he
    have hvalue : dyadic m k = (m * 2 ^ k : ℕ) := by
      simp [dyadic]
    rw [hvalue, Nat.floor_natCast]
    simp only [roundToInt, decreaseExponent, shiftToExponent, Nat.shiftLeft_eq,
      mantissa_shiftRight]
    simp [ExtendedMantissa.ofMantissaAndAccuracy, Sign.apply]
  · obtain ⟨k, rfl⟩ := Int.exists_eq_neg_ofNat he
    rw [floor_dyadic_shift]
    simp only [roundToInt, decreaseExponent, shiftToExponent, Nat.shiftLeft_eq,
      mantissa_shiftRight]
    simp [ExtendedMantissa.ofMantissaAndAccuracy, Sign.apply]

theorem Denotes.toNat_toUInt64 (ha : Denotes a v) (hv : v < 2 ^ 64) :
    a.toUInt64.toNat = ⌊v⌋₊ := by
  have hint : (a.toInt 0 (UInt64.size - 1)).toNat = ⌊v⌋₊ := by
    cases ha with
    | zero => simp [UnpackedFloat.toInt]
    | finite hm ha =>
      rw [UnpackedFloat.toInt, roundToInt_eq, Int.toNat_natCast]
  have hlt : ⌊v⌋₊ < 2 ^ 64 := (Nat.floor_lt ha.nonneg).2 (by exact_mod_cast hv)
  rw [UnpackedFloat.toUInt64, hint, UInt64.toNat_ofNatClamp_of_lt hlt]

end Operations

/-! ## Bits -/

section Bits

variable {m : ℕ} {e : ℤ}

theorem toNat_leading (v : BitVec 52) : (1#1 ++ v).toNat = 2 ^ 52 + v.toNat := by
  rw [BitVec.toNat_append, ← Nat.shiftLeft_add_eq_or_of_lt v.isLt, Nat.shiftLeft_eq]
  rfl

theorem toNat_leading_ofNat (hm : 2 ^ 52 ≤ m) (hlt : m < 2 ^ 53) :
    (1#1 ++ BitVec.ofNat 52 m).toNat = m := by
  rw [toNat_leading, BitVec.toNat_ofNat]
  omega

theorem unpack_fields {biased : ℕ} (hm : 0 < m) (hfull : 2 ^ 52 ≤ m) (hlt : m < 2 ^ 53)
    (hpos : 0 < biased) (hbiased : biased < 2047) :
    UnpackedFloat.unpack .binary64 (packComponents .binary64 .positive (BitVec.ofNat 11 biased)
      (BitVec.ofNat 52 m)) = .finite .positive m (biased - 1075) hm := by
  have hbits : (BitVec.ofNat 11 biased).toNat = biased := by
    rw [BitVec.toNat_ofNat]
    omega
  have hinfinite : BitVec.ofNat 11 biased ≠ -1#11 := fun h => by
    have hn := congrArg BitVec.toNat h
    rw [hbits] at hn
    exact hbiased.ne hn
  have hnormal : BitVec.ofNat 11 biased ≠ 0#11 := fun h => by
    have hn := congrArg BitVec.toNat h
    rw [hbits] at hn
    exact hpos.ne' hn
  simp only [UnpackedFloat.unpack, unpackMantissa_packComponents, unpackExponent_packComponents,
    unpackSign_packComponents, Sign.ofBitVec_toBitVec, if_neg hinfinite, if_neg hnormal,
    toNat_leading_ofNat hfull hlt, hbits]
  rfl

theorem unpack_fields_least (hm : 0 < m) (hlt : m < 2 ^ 52) :
    UnpackedFloat.unpack .binary64 (packComponents .binary64 .positive 0#11 (BitVec.ofNat 52 m)) =
      .finite .positive m (-1074) hm := by
  have hmantissa : (BitVec.ofNat 52 m).toNat = m := by
    rw [BitVec.toNat_ofNat, Nat.mod_eq_of_lt hlt]
  have hpos : BitVec.ofNat 52 m ≠ 0#52 := fun h => by
    have hn := congrArg BitVec.toNat h
    rw [hmantissa] at hn
    exact hm.ne' hn
  have hinfinite : 0#11 ≠ -1#11 := by decide
  simp only [UnpackedFloat.unpack, unpackMantissa_packComponents, unpackExponent_packComponents,
    unpackSign_packComponents, Sign.ofBitVec_toBitVec, if_neg hinfinite, dif_neg hpos, if_true,
    hmantissa]
  rfl

theorem unpack_pack (hm : 0 < m) (canonical : Canonical m e) (he : e ≤ 971) :
    UnpackedFloat.unpack .binary64 (UnpackedFloat.pack .binary64 (.finite .positive m e hm)) =
      .finite .positive m e hm := by
  obtain ⟨hlt, hleast, hfull⟩ := canonical
  have hbiased : e + Format.binary64.exponentBias + Format.binary64.mantissaBitsWithoutImplicit =
      e + 1075 := by
    change e + 1023 + 52 = e + 1075
    omega
  have hfits : ¬ 2 ^ Format.binary64.exponentBits ≤ (e + 1075).toNat + 1 := by
    change ¬ 2048 ≤ (e + 1075).toNat + 1
    omega
  simp only [UnpackedFloat.pack, hbiased, if_neg hfits]
  by_cases hlarge : 2 ^ 52 ≤ m
  · have hlog : m.log2 = 52 := (Nat.log2_eq_iff hm.ne').2 ⟨hlarge, hlt⟩
    have hexp : ((e + 1075).toNat : ℤ) - 1075 = e := by omega
    rw [if_pos (by rw [hlog]; rfl), unpack_fields hm hlarge hlt (by omega) (by omega)]
    simp only [hexp]
  · obtain rfl : e = -1074 := hfull.resolve_left hlarge
    have hlog : m.log2 < 52 := (Nat.log2_lt hm.ne').2 (not_le.1 hlarge)
    rw [if_neg (by change ¬ m.log2 + 1 = 53; omega), unpack_fields_least hm (not_le.1 hlarge)]

theorem canonical_of_unpack {x : Float.Model} {s : Sign} {hm : 0 < m}
    (h : x.unpack = .finite s m e hm) : Canonical m e ∧ e ≤ 971 := by
  have hmantissa := BitVec.isLt (@unpackMantissa .binary64 x.toBits.toBitVec)
  have hexponent := BitVec.isLt (@unpackExponent .binary64 x.toBits.toBitVec)
  unfold Float.Model.unpack UnpackedFloat.unpack at h
  dsimp only at h
  split at h
  · split at h <;> cases h
  · rename_i hinfinite
    split at h
    · rename_i hleast
      split at h
      · cases h
      · cases h
        rw [hleast]
        exact ⟨⟨hmantissa.trans (by decide), by decide, .inr (by decide)⟩, by decide⟩
    · rename_i hleast
      cases h
      have hne : (@unpackExponent .binary64 x.toBits.toBitVec).toNat ≠ 0 :=
        fun h => hleast (BitVec.eq_of_toNat_eq h)
      have hle : (@unpackExponent .binary64 x.toBits.toBitVec).toNat ≠ 2047 :=
        fun h => hinfinite (BitVec.eq_of_toNat_eq h)
      have hmantissa' : (@unpackMantissa .binary64 x.toBits.toBitVec).toNat < 2 ^ 52 :=
        hmantissa
      have hexponent' : (@unpackExponent .binary64 x.toBits.toBitVec).toNat < 2048 :=
        hexponent
      have hbias : (Format.binary64.exponentBias : ℤ) + (52 : ℕ) = 1075 := rfl
      rw [toNat_leading, hbias]
      exact ⟨⟨by omega, by omega, .inl (by omega)⟩, by omega⟩

end Bits

end MuonSpin
