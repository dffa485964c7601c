import MuonSpin.Proofs.Numeric.Rounding

/-!
# The nearest whole number

Rounding a floating-point number to a whole one, with the operations that lead up to it in a plot.

* `StandsFor`: the number that a floating-point number stands for, if it is finite and not negative;
* `Within`: a number from zero to a bound, or one that is undefined. Holding a number between zero and
  one, multiplying with the bound and subtracting from the bound give such numbers, whatever the
  operands are (`within_between`, `Within.mul`, `Within.sub`);
* **the whole number nearest to one within a whole bound is within the bound**
  (`Within.toIndex_nearestWhole_le`).
-/

namespace MuonSpin

open Float.Model

/-- A floating-point number that is not negative stands for a number. -/
def StandsFor (x : Float) (v : ℚ) : Prop := Denotes x.toModel.unpack v

/-- The result of an operation that has none. -/
def IsUndefined (x : Float) : Prop := x.toModel.unpack = .notANumber

theorem Denotes.unpack_pack {u : UnpackedFloat} {v : ℚ} (h : Denotes u v) :
    Denotes (UnpackedFloat.unpack .binary64 (UnpackedFloat.pack .binary64 u)) v := by
  cases h with
  | zero s => cases s <;> exact .zero _
  | finite hm canonical he =>
    rw [MuonSpin.unpack_pack hm canonical he]
    exact .finite hm canonical he

section StandsFor

variable {x y : Float} {v w : ℚ}

theorem StandsFor.nonneg (hx : StandsFor x v) : 0 ≤ v := Denotes.nonneg hx

theorem StandsFor.representable (hx : StandsFor x v) : Representable v := Denotes.representable hx

theorem StandsFor.mul (hx : StandsFor x v) (hy : StandsFor y w) (hvw : v * w ≤ 2 ^ 60) :
    ∃ z, RoundsTo (v * w) z ∧ StandsFor (x * y) z := by
  obtain ⟨z, hz, h⟩ := Denotes.mul hx hy hvw
  exact ⟨z, hz, h.unpack_pack⟩

theorem StandsFor.sub (hx : StandsFor x v) (hy : StandsFor y w) (hwv : w ≤ v) (hv : v ≤ 2 ^ 60) :
    ∃ z, RoundsTo (v - w) z ∧ StandsFor (x - y) z := by
  obtain ⟨z, hz, h⟩ := Denotes.sub hx hy hwv hv
  exact ⟨z, hz, h.unpack_pack⟩

theorem float_lt_iff : x < y ↔ x.toModel.unpack.lt y.toModel.unpack = true := decide_eq_true_iff

theorem StandsFor.lt_iff (hx : StandsFor x v) (hy : StandsFor y w) : x < y ↔ v < w :=
  float_lt_iff.trans (Denotes.lt_iff hx hy)

theorem StandsFor.toNat_toUInt64 (hx : StandsFor x v) (hv : v < 2 ^ 64) :
    x.toUInt64.toNat = ⌊v⌋₊ := Denotes.toNat_toUInt64 hx hv

end StandsFor

/-! ## Whole numbers and powers of two -/

theorem standsFor_two_zpow {x : Float} {e : ℤ}
    (h : x.toModel.unpack = .finite .positive (2 ^ 52) e (by decide)) (hleast : -1074 ≤ e)
    (hle : e ≤ 971) : StandsFor x (2 ^ (e + 52)) := by
  have hvalue : (2 : ℚ) ^ (e + 52) = dyadic (2 ^ 52) e := by
    rw [zpow_add₀ two_ne_zero, dyadic, mul_comm]
    norm_num
  rw [StandsFor, h, hvalue]
  exact .finite _ ⟨by decide, hleast, .inl le_rfl⟩ hle

theorem standsFor_zero : StandsFor 0 0 := .zero _

theorem standsFor_one : StandsFor 1.0 1 := by
  simpa using standsFor_two_zpow (x := 1.0) (e := -52) rfl (by decide) (by decide)

theorem standsFor_half : StandsFor 0.5 (1 / 2) := by
  simpa using standsFor_two_zpow (x := 0.5) (e := -53) rfl (by decide) (by decide)

/-- From this number on all numbers are whole. -/
theorem standsFor_whole_from : StandsFor 4503599627370496.0 (2 ^ 52) := by
  simpa using standsFor_two_zpow (x := 4503599627370496.0) (e := 0) rfl (by decide) (by decide)

theorem natCast_le_two_pow {n : ℕ} (hn : n < 2 ^ 53) : (n : ℚ) ≤ 2 ^ 60 := by
  exact_mod_cast hn.le.trans (by decide)

theorem StandsFor.toFloat {n : UInt64} (hn : n.toNat < 2 ^ 53) : StandsFor n.toFloat n.toNat := by
  have hvalue : dyadic n.toNat 0 = n.toNat := by simp [dyadic]
  obtain ⟨z, hz, h⟩ := denotes_normalize (e := 0) n.toNat (by
    rw [hvalue]
    exact natCast_le_two_pow hn)
  rw [hvalue] at hz
  rw [hz.eq (representable_natCast hn)] at h
  exact h.unpack_pack

theorem toUInt64_toFloat {n : UInt64} (hn : n.toNat < 2 ^ 53) : n.toFloat.toUInt64 = n := by
  have h := (StandsFor.toFloat hn).toNat_toUInt64 (by exact_mod_cast hn.trans (by decide))
  rw [Nat.floor_natCast] at h
  exact UInt64.toNat_inj.1 h

theorem StandsFor.natCast {n : ℕ} (hn : n < 2 ^ 53) : StandsFor (n : Float) n := by
  have htoNat : n.toUInt64.toNat = n := UInt64.toNat_ofNat_of_lt' (hn.trans (by decide))
  have hfloat : StandsFor n.toUInt64.toFloat n := by
    simpa only [htoNat] using StandsFor.toFloat (n := n.toUInt64) (by rwa [htoNat])
  have hone : StandsFor Float.exactlyRepresentablePowersOfTen[0] 1 := standsFor_one
  have hsplit : (n : Float) = n.toUInt64.toFloat * Float.exactlyRepresentablePowersOfTen[0] := by
    change Float.ofScientific n false 0 = _
    rw [Float.ofScientific, dif_pos ⟨hn, by decide⟩]
    rfl
  obtain ⟨z, hz, h⟩ := hfloat.mul hone (by
    rw [mul_one]
    exact natCast_le_two_pow hn)
  rw [mul_one] at hz
  rwa [hsplit, ← hz.eq (representable_natCast hn)]

theorem StandsFor.natCast_sub_one {n : ℕ} (hpos : 0 < n) (hn : n < 2 ^ 53) :
    StandsFor ((n : Float) - 1.0) ((n - 1 : ℕ) : ℚ) := by
  have hle : (1 : ℚ) ≤ n := by exact_mod_cast hpos
  obtain ⟨z, hz, h⟩ := (StandsFor.natCast hn).sub standsFor_one hle (natCast_le_two_pow hn)
  have hpred : (n : ℚ) - 1 = ((n - 1 : ℕ) : ℚ) := by rw [Nat.cast_sub hpos, Nat.cast_one]
  rw [hpred] at hz
  rwa [← hz.eq (representable_natCast (by omega))]

/-! ## Undefined numbers -/

section Undefined

variable {x y : Float}

theorem IsUndefined.mul_right (h : IsUndefined x) (y : Float) : IsUndefined (x * y) := by
  have hmul : UnpackedFloat.mul .binary64 x.toModel.unpack y.toModel.unpack = .notANumber := by
    rw [h]
    cases y.toModel.unpack <;> rfl
  change (Float.Model.pack (UnpackedFloat.mul .binary64 x.toModel.unpack y.toModel.unpack)).unpack =
    .notANumber
  rw [hmul]
  rfl

theorem IsUndefined.sub_left (h : IsUndefined x) (y : Float) : IsUndefined (y - x) := by
  have hsub : UnpackedFloat.sub .binary64 y.toModel.unpack x.toModel.unpack = .notANumber := by
    rw [h]
    cases y.toModel.unpack <;> rfl
  change (Float.Model.pack (UnpackedFloat.sub .binary64 y.toModel.unpack x.toModel.unpack)).unpack =
    .notANumber
  rw [hsub]
  rfl

theorem IsUndefined.not_lt (h : IsUndefined x) (y : Float) : ¬ x < y := by
  rw [float_lt_iff, h]
  simp [UnpackedFloat.lt, UnpackedFloat.compare]

theorem IsUndefined.toUInt64 (h : IsUndefined x) : x.toUInt64 = 0 := by
  change x.toModel.unpack.toUInt64 = 0
  rw [h]
  rfl

end Undefined

/-! ## Numbers up to a bound -/

/-- A number from zero to a bound, or one that is undefined. -/
def Within (b : ℚ) (x : Float) : Prop := IsUndefined x ∨ ∃ v, StandsFor x v ∧ v ≤ b

section Within

variable {x y : Float} {v b : ℚ} {n : ℕ}

theorem StandsFor.within (h : StandsFor x v) (hv : v ≤ b) : Within b x := .inr ⟨v, h, hv⟩

/-- **Any number** is held between zero and one, unless it is undefined. -/
theorem within_between (x : Float) : Within 1 (between 0 1.0 x) := by
  unfold between
  split_ifs with hneg hone
  · exact standsFor_zero.within zero_le_one
  · exact standsFor_one.within le_rfl
  · -- Infinite and negative numbers are on the other two branches.
    rw [float_lt_iff] at hneg hone
    cases hx : x.toModel.unpack with
    | notANumber => exact .inl hx
    | infinity s =>
      rw [hx] at hneg hone
      cases s with
      | positive => exact absurd rfl hone
      | negative => exact absurd rfl hneg
    | zero s =>
      have hstands : StandsFor x 0 := by
        rw [StandsFor, hx]
        exact .zero s
      exact hstands.within zero_le_one
    | finite s m e hm =>
      cases s with
      | positive =>
        obtain ⟨canonical, he⟩ := canonical_of_unpack hx
        have hstands : StandsFor x (dyadic m e) := by
          rw [StandsFor, hx]
          exact .finite hm canonical he
        rw [← float_lt_iff, standsFor_one.lt_iff hstands, not_lt] at hone
        exact hstands.within hone
      | negative =>
        rw [hx] at hneg
        exact absurd rfl hneg

theorem Within.mul (hx : Within 1 x) (hy : StandsFor y n) (hn : n < 2 ^ 53) :
    Within n (x * y) := by
  obtain hx | ⟨v, hx, hv⟩ := hx
  · exact .inl (hx.mul_right y)
  · have hle : v * n ≤ n := mul_le_of_le_one_left (Nat.cast_nonneg n) hv
    obtain ⟨z, hz, h⟩ := hx.mul hy (hle.trans (natCast_le_two_pow hn))
    exact h.within ((hz n (representable_natCast hn)).1 hle)

theorem Within.sub (hx : Within n x) (hy : StandsFor y n) (hn : n < 2 ^ 53) :
    Within n (y - x) := by
  obtain hx | ⟨v, hx, hv⟩ := hx
  · exact .inl (hx.sub_left y)
  · obtain ⟨z, hz, h⟩ := hy.sub hx hv (natCast_le_two_pow hn)
    exact h.within ((hz n (representable_natCast hn)).1 (sub_le_self _ hx.nonneg))

theorem StandsFor.floor_lt (hx : StandsFor x v) (hv : v ≤ n) (hlt : v < 2 ^ 52)
    (hhalf : ¬ x - x.toUInt64.toFloat < 0.5) : ⌊v⌋₊ < n := by
  have hindex := hx.toNat_toUInt64 (hlt.trans (by norm_num))
  have hsmall : ⌊v⌋₊ < 2 ^ 52 := (Nat.floor_lt hx.nonneg).2 (by exact_mod_cast hlt)
  have hfloor := StandsFor.toFloat (n := x.toUInt64) (by omega)
  rw [hindex] at hfloor
  obtain ⟨z, hz, hsub⟩ := hx.sub hfloor (Nat.floor_le hx.nonneg) (hlt.le.trans (by norm_num))
  rw [hsub.lt_iff standsFor_half, not_lt] at hhalf
  refine lt_of_le_of_ne (Nat.floor_le_of_le hv) fun heq => ?_
  have hvalue : v - ⌊v⌋₊ = 0 := by
    have hle := Nat.floor_le hx.nonneg
    rw [heq] at hle ⊢
    linarith
  rw [hvalue] at hz
  have hzero : z = 0 := hz.eq standsFor_zero.representable
  norm_num [hzero] at hhalf

theorem StandsFor.toNat_nearestAbove_le (hx : StandsFor x v) (hv : v ≤ n) (hn : n < 2 ^ 53) :
    (nearestAbove x).toUInt64.toNat ≤ n := by
  have hfloor : ⌊v⌋₊ ≤ n := Nat.floor_le_of_le hv
  have hindex := hx.toNat_toUInt64 (hv.trans_lt (by exact_mod_cast hn.trans (by decide)))
  unfold nearestAbove
  dsimp only
  split_ifs with hwhole hbelow
  · rw [toUInt64_toFloat (by omega), hindex]
    exact hfloor
  · have hlt := hx.floor_lt hv ((hx.lt_iff standsFor_whole_from).1 hwhole) hbelow
    have hsucc : (x.toUInt64 + 1).toNat = ⌊v⌋₊ + 1 := by
      rw [UInt64.toNat_add, hindex, UInt64.toNat_one]
      omega
    rw [toUInt64_toFloat (by omega), hsucc]
    exact hlt
  · rw [hindex]
    exact hfloor

/-- **The whole number nearest to one within a whole bound** is within the bound. -/
theorem Within.toIndex_nearestWhole_le (hx : Within n x) (hn : n < 2 ^ 53) :
    Elementary.toIndex (Elementary.round x) ≤ n := by
  change (nearestWhole x).toUInt64.toNat ≤ n
  obtain hx | ⟨v, hx, hv⟩ := hx
  · have habove : nearestWhole x = x := by
      rw [nearestWhole, if_neg (hx.not_lt 0), nearestAbove, if_neg (hx.not_lt _)]
    rw [habove, hx.toUInt64]
    exact Nat.zero_le n
  · have hneg : ¬ x < 0 := by
      rw [hx.lt_iff standsFor_zero]
      exact not_lt.2 hx.nonneg
    rw [nearestWhole, if_neg hneg]
    exact hx.toNat_nearestAbove_le hv hn

end Within

end MuonSpin
