import Mathlib.Order.Interval.Set.UnorderedInterval
import MuonSpin.Numeric.SampledTable
import MuonSpin.Proofs.Numeric.Exact

/-!
# Reading sampled tables

A sampled table is read in two steps: the time, counted in steps, snaps to a whole number nearby, and the
polygon through the samples is taken there. Behind its last sample the table is constant.

* `snap`: the position that is read; `snap_mono`: **snapping keeps the order**;
* `polygon`: the polygon through samples at the whole numbers. It stays between neighbouring samples
  (`polygon_mem_uIcc`), and rises with them (`polygon_mono`);
* `SampledTable.lookup_eq`: reading a table takes its polygon at the snapped position;
* **`SampledTable.lookup_isReading`**: the value that is read, and its order.
-/

namespace MuonSpin

/-! ## Snapping -/

variable {K : Type} [Field K] [LinearOrder K]

theorem near_or_far (x : K) : (∃ k : ℕ, |x - k| < 1e-9) ∨ ∀ k : ℕ, 1e-9 ≤ |x - k| := by
  by_cases h : ∃ k : ℕ, |x - k| < 1e-9
  · exact .inl h
  · exact .inr fun k => not_lt.1 fun hk => h ⟨k, hk⟩

variable [FloorRing K]

/-- The nearest whole number if it is near, else the number itself. -/
def snap (x : K) : K := if |x - nearest x| < 1e-9 then nearest x else x

theorem snap_of_far {x : K} (h : ∀ k : ℕ, 1e-9 ≤ |x - k|) : snap x = x :=
  if_neg (not_lt.2 (h (nearest x)))

section Snap

variable [IsStrictOrderedRing K] {x y : K} {k : ℕ}

theorem nearest_eq (h : |x - k| < 1e-9) : nearest x = k := by
  rw [abs_lt] at h
  norm_num at h
  obtain ⟨hlower, hupper⟩ := h
  have hk : (0 : K) ≤ k := Nat.cast_nonneg k
  refine (Nat.floor_eq_iff (by linarith)).2 ⟨by linarith, by linarith⟩

theorem snap_of_near (h : |x - k| < 1e-9) : snap x = k := by
  rw [snap, nearest_eq h, if_pos h]

/-- **Snapping keeps the order**: a number that stays is not inside the range of a whole number. -/
theorem snap_mono (h : x ≤ y) : snap x ≤ snap y := by
  rcases near_or_far x with ⟨k, hx⟩ | hx
  · rw [snap_of_near hx]
    rcases near_or_far y with ⟨l, hy⟩ | hy
    · rw [snap_of_near hy, ← nearest_eq hx, ← nearest_eq hy, Nat.cast_le]
      exact Nat.floor_mono (by linarith)
    · rw [snap_of_far hy]
      by_contra hlt
      have hcloser : |y - k| ≤ |x - k| := by
        rw [abs_of_neg (by linarith), abs_of_neg (by linarith)]
        linarith
      exact absurd (hcloser.trans_lt hx) (not_lt.2 (hy k))
  · rw [snap_of_far hx]
    rcases near_or_far y with ⟨l, hy⟩ | hy
    · rw [snap_of_near hy]
      by_contra hlt
      have hcloser : |x - l| ≤ |y - l| := by
        rw [abs_of_pos (by linarith), abs_of_pos (by linarith)]
        linarith
      exact absurd (hcloser.trans_lt hy) (not_lt.2 (hx l))
    · rwa [snap_of_far hy]

theorem snap_natCast (k : ℕ) : snap (k : K) = k :=
  snap_of_near (by norm_num)

theorem snap_nonneg (hx : 0 ≤ x) : 0 ≤ snap x := by
  have h := snap_mono hx
  rwa [← Nat.cast_zero, snap_natCast, Nat.cast_zero] at h

end Snap

/-! ## The polygon -/

/-- The polygon through samples at the whole numbers. -/
def polygon (v : ℕ → K) (x : K) : K :=
  SampledTable.interpolate (v ⌊x⌋₊) (v (⌊x⌋₊ + 1)) (x - ⌊x⌋₊)

theorem polygon_neg (v : ℕ → K) (x : K) : polygon (fun i => -v i) x = -polygon v x := by
  unfold polygon SampledTable.interpolate
  ring

section Polygon

variable [IsStrictOrderedRing K] {v : ℕ → K} {x y : K}

theorem fraction_mem (hx : 0 ≤ x) : 0 ≤ x - ⌊x⌋₊ ∧ x - ⌊x⌋₊ < 1 := by
  have hle := Nat.floor_le hx
  have hlt := Nat.lt_floor_add_one x
  constructor <;> linarith

@[simp] theorem polygon_natCast (v : ℕ → K) (k : ℕ) : polygon v k = v k := by
  simp [polygon, SampledTable.interpolate]

/-- **The polygon** stays between neighbouring samples. -/
theorem polygon_mem_uIcc (v : ℕ → K) (hx : 0 ≤ x) :
    polygon v x ∈ Set.uIcc (v ⌊x⌋₊) (v (⌊x⌋₊ + 1)) := by
  obtain ⟨h0, h1⟩ := fraction_mem hx
  rw [Set.mem_uIcc, polygon, SampledTable.interpolate]
  rcases le_total (v ⌊x⌋₊) (v (⌊x⌋₊ + 1)) with hle | hle
  · have hrise := mul_nonneg (sub_nonneg.2 hle) h0
    have hshort := mul_le_of_le_one_right (sub_nonneg.2 hle) h1.le
    exact .inl ⟨by linarith, by linarith⟩
  · have hfall := mul_nonneg (sub_nonneg.2 hle) h0
    have hshort := mul_le_of_le_one_right (sub_nonneg.2 hle) h1.le
    exact .inr ⟨by linarith, by linarith⟩

theorem polygon_mono (hv : Monotone v) (hx : 0 ≤ x) (h : x ≤ y) : polygon v x ≤ polygon v y := by
  have hstep := hv (Nat.le_succ ⌊x⌋₊)
  rcases (Nat.floor_mono h).eq_or_lt with hfloor | hfloor
  · rw [polygon, polygon, SampledTable.interpolate, SampledTable.interpolate, ← hfloor]
    have hrise := mul_le_mul_of_nonneg_left (sub_le_sub_right h (⌊x⌋₊ : K)) (sub_nonneg.2 hstep)
    linarith
  · have hupper := (Set.uIcc_of_le hstep ▸ polygon_mem_uIcc v hx).2
    have hlower := (Set.uIcc_of_le (hv (Nat.le_succ ⌊y⌋₊)) ▸ polygon_mem_uIcc v (hx.trans h)).1
    exact (hupper.trans (hv hfloor)).trans hlower

theorem polygon_anti (hv : Antitone v) (hx : 0 ≤ x) (h : x ≤ y) : polygon v y ≤ polygon v x := by
  have hmono := polygon_mono hv.neg hx h
  change polygon (fun i => -v i) x ≤ polygon (fun i => -v i) y at hmono
  rwa [polygon_neg, polygon_neg, neg_le_neg_iff] at hmono

theorem floor_add_one_lt {n : ℕ} (hx : 0 ≤ x) (h : x < (n : K) - 1) : ⌊x⌋₊ + 1 < n := by
  have hlt : (⌊x⌋₊ : K) + 1 < n := by linarith [Nat.floor_le hx]
  exact_mod_cast hlt

/-- Also behind snapping the polygon stays between the samples around the position. -/
theorem snap_mem_uIcc (v : ℕ → K) (hx : 0 ≤ x) :
    polygon v (snap x) ∈ Set.uIcc (v ⌊x⌋₊) (v (⌊x⌋₊ + 1)) := by
  rcases near_or_far x with ⟨k, hk⟩ | hfar
  · have hle := Nat.floor_le hx
    have hlt := Nat.lt_floor_add_one x
    rw [snap_of_near hk, polygon_natCast]
    rw [abs_lt] at hk
    norm_num at hk
    have hlower : (⌊x⌋₊ : K) < (k : K) + 1 := by linarith
    have hupper : (k : K) < (⌊x⌋₊ : K) + 2 := by linarith
    norm_cast at hlower hupper
    obtain rfl | rfl : k = ⌊x⌋₊ ∨ k = ⌊x⌋₊ + 1 := by omega
    · exact Set.left_mem_uIcc
    · exact Set.right_mem_uIcc
  · rw [snap_of_far hfar]
    exact polygon_mem_uIcc v hx

end Polygon

/-! ## Tables -/

namespace SampledTable

section Prolonged

variable {α : Type} {values : Array α} {last : α} {i : ℕ}

theorem exists_back? (hpos : 0 < values.size) : ∃ last, values.back? = some last := by
  have hend : values.size - 1 < values.size := Nat.sub_one_lt_of_lt hpos
  exact ⟨values[values.size - 1], by
    rw [Array.back?_eq_getElem?, Array.getElem?_eq_getElem hend]⟩

/-- The samples of a table, the last one again and again behind its end. -/
def prolonged (values : Array α) (last : α) (i : ℕ) : α := values.getD i last

theorem prolonged_of_lt (h : i < values.size) : prolonged values last i = values[i] := by
  simp [prolonged, h]

theorem prolonged_of_le (hlast : values.back? = some last) (h : values.size - 1 ≤ i) :
    prolonged values last i = last := by
  unfold prolonged
  rcases lt_or_ge i values.size with hi | hi
  · have hindex : i = values.size - 1 := by omega
    rw [Array.back?_eq_getElem?, ← hindex, Array.getElem?_eq_getElem hi, Option.some_inj] at hlast
    simp [hi, hlast]
  · simp [hi]

theorem prolonged_mono [Preorder α] (hlast : values.back? = some last)
    (h : ∀ i j (hj : j < values.size) (hij : i ≤ j), values[i] ≤ values[j]) :
    Monotone (prolonged values last) := by
  intro i j hij
  rcases lt_or_ge j values.size with hj | hj
  · rw [prolonged_of_lt (hij.trans_lt hj), prolonged_of_lt hj]
    exact h i j hj hij
  · rw [prolonged_of_le (i := j) hlast (by omega)]
    rcases lt_or_ge i values.size with hi | hi
    · have hend : values.size - 1 < values.size := by omega
      have hvalue := prolonged_of_le (i := values.size - 1) hlast le_rfl
      rw [prolonged_of_lt hend] at hvalue
      rw [prolonged_of_lt hi, ← hvalue]
      exact h i _ hend (by omega)
    · rw [prolonged_of_le hlast (by omega)]

theorem prolonged_anti [Preorder α] (hlast : values.back? = some last)
    (h : ∀ i j (hj : j < values.size) (hij : i ≤ j), values[j] ≤ values[i]) :
    Antitone (prolonged values last) :=
  @prolonged_mono αᵒᵈ values last _ hlast h

end Prolonged

section Reading

variable {values : Array K} {last : K}

theorem polygon_prolonged (hlast : values.back? = some last) {y : K}
    (h : ((values.size - 1 : ℕ) : K) ≤ y) : polygon (prolonged values last) y = last := by
  have hfloor : values.size - 1 ≤ ⌊y⌋₊ := Nat.le_floor h
  rw [polygon, prolonged_of_le hlast hfloor, prolonged_of_le hlast (by omega)]
  simp [interpolate]

/-- **What is read** at a position, counted in steps: a sample that is near, the last one behind all
others, and else a value on the line between the two samples around the position, which exist. -/
structure IsReading (values : Array K) (x v : K) : Prop where
  sample : ∀ k (hk : k < values.size), |x - k| < 1e-9 → v = values[k]
  last : ∀ hpos : 0 < values.size, (values.size : K) - 1 ≤ x → v = values[values.size - 1]
  between : (∀ k < values.size, 1e-9 ≤ |x - k|) → x < (values.size : K) - 1 →
    ∃ hnext : ⌊x⌋₊ + 1 < values.size,
      v = values[⌊x⌋₊] + (values[⌊x⌋₊ + 1] - values[⌊x⌋₊]) * (x - ⌊x⌋₊)
  neighbours : x < (values.size : K) - 1 →
    ∃ hnext : ⌊x⌋₊ + 1 < values.size, v ∈ Set.uIcc values[⌊x⌋₊] values[⌊x⌋₊ + 1]

variable [IsStrictOrderedRing K]

theorem isReading_polygon (hlast : values.back? = some last) {x : K} (hx : 0 ≤ x) :
    IsReading values x (polygon (prolonged values last) (snap x)) := by
  constructor
  · intro k hk hnear
    rw [snap_of_near hnear, polygon_natCast, prolonged_of_lt hk]
  · intro hpos hend
    have hsnap : ((values.size - 1 : ℕ) : K) ≤ snap x := by
      rw [← snap_natCast (values.size - 1)]
      refine snap_mono ?_
      rwa [Nat.cast_sub hpos, Nat.cast_one]
    rw [polygon_prolonged hlast hsnap, ← prolonged_of_le hlast le_rfl]
    exact prolonged_of_lt _
  · intro hfar hbefore
    have hnext := floor_add_one_lt hx hbefore
    have hfar' : ∀ k : ℕ, 1e-9 ≤ |x - k| := by
      intro k
      rcases lt_or_ge k values.size with hk | hk
      · exact hfar k hk
      · have hk' : (values.size : K) ≤ k := by exact_mod_cast hk
        rw [abs_of_neg (by linarith)]
        norm_num
        linarith
    refine ⟨hnext, ?_⟩
    rw [snap_of_far hfar', polygon, prolonged_of_lt (by omega), prolonged_of_lt hnext]
    rfl
  · intro hbefore
    have hnext := floor_add_one_lt hx hbefore
    have hmem := snap_mem_uIcc (prolonged values last) hx
    rw [prolonged_of_lt (by omega), prolonged_of_lt hnext] at hmem
    exact ⟨hnext, hmem⟩

end Reading

section Lookup

variable [Elementary K] [IsExact K] [IsStrictOrderedRing K] {values : Array K} {last : K}

theorem atPosition_eq (hlast : values.back? = some last) {x : K} (hx : 0 ≤ x) :
    atPosition values last x = some (polygon (prolonged values last) (snap x)) := by
  unfold atPosition
  simp only [IsExact.abs_eq, round_of_nonneg hx, floor_of_nonneg hx, toIndex_natCast, successor?_eq]
  unfold snap
  split_ifs with hnear
  · rw [polygon_natCast]
    rfl
  · rw [polygon]
    rcases lt_or_ge (⌊x⌋₊ + 1) values.size with hnext | hend
    · have hhere : ⌊x⌋₊ < values.size := by omega
      rw [Array.getElem?_eq_getElem hhere, Array.getElem?_eq_getElem hnext, prolonged_of_lt hhere,
        prolonged_of_lt hnext]
    · rw [Array.getElem?_eq_none hend, prolonged_of_le (i := ⌊x⌋₊) hlast (by omega),
        prolonged_of_le (i := ⌊x⌋₊ + 1) hlast (by omega)]
      simp [interpolate]

/-- **Reading a table** takes its polygon at the snapped position. -/
theorem lookup_eq {table : SampledTable K} (hlast : table.values.back? = some last)
    (hdt : 0 < table.dt) {t : K} (ht : 0 ≤ t) (before : K) :
    table.lookup t before =
      some (polygon (prolonged table.values last) (snap (t / table.dt))) := by
  rw [lookup, if_neg (not_lt.2 ht), hlast]
  change (if 0 < table.dt then _ else _) = _
  rw [if_pos hdt, atPosition_eq hlast (div_nonneg ht hdt.le)]

theorem lookup_zero {table : SampledTable K} {first : K} (hfirst : table.values[0]? = some first)
    (hdt : 0 < table.dt) (before : K) : table.lookup 0 before = some first := by
  obtain ⟨hpos, rfl⟩ := Array.getElem?_eq_some_iff.1 hfirst
  obtain ⟨last, hlast⟩ := exists_back? hpos
  rw [lookup_eq hlast hdt le_rfl, zero_div, ← Nat.cast_zero, snap_natCast, polygon_natCast,
    prolonged_of_lt hpos]

/-- **Reading a table** at a time that is not negative. The value is the sample nearby, the last sample
behind all others, and else that of the line through the two samples around the time; it is between
those two samples. If the samples rise or fall, so do the values that are read, over the places where
the time snaps and over the end of the table. -/
theorem lookup_isReading (table : SampledTable K) (before : K) (hdt : 0 < table.dt)
    (hsize : 0 < table.size) :
    (∀ t, 0 ≤ t → ∃ v, table.lookup t before = some v ∧
      IsReading table.values (t / table.dt) v) ∧
    ∀ t t' v v', 0 ≤ t → t ≤ t' →
      table.lookup t before = some v → table.lookup t' before = some v' →
      ((∀ i j (hj : j < table.values.size) (hij : i ≤ j), table.values[i] ≤ table.values[j]) →
        v ≤ v') ∧
      ((∀ i j (hj : j < table.values.size) (hij : i ≤ j), table.values[j] ≤ table.values[i]) →
        v' ≤ v) := by
  obtain ⟨last, hlast⟩ := exists_back? hsize
  refine ⟨fun t ht => ?_, fun t t' v v' ht htt' hv hv' => ?_⟩
  · exact ⟨_, lookup_eq hlast hdt ht before, isReading_polygon hlast (div_nonneg ht hdt.le)⟩
  · rw [lookup_eq hlast hdt ht, Option.some_inj] at hv
    rw [lookup_eq hlast hdt (ht.trans htt'), Option.some_inj] at hv'
    have hpos : 0 ≤ snap (t / table.dt) := snap_nonneg (div_nonneg ht hdt.le)
    have hle := snap_mono (div_le_div_of_nonneg_right htt' hdt.le)
    rw [← hv, ← hv']
    exact ⟨fun hrise => polygon_mono (prolonged_mono hlast hrise) hpos hle,
      fun hfall => polygon_anti (prolonged_anti hlast hfall) hpos hle⟩

end Lookup

/-- A table that rises, between two samples and behind its end. -/
theorem lookup_isReading_ramp :
    letI := exactScalar (K := ℚ) id id id id fun x _ => x
    (⟨1 / 10, #[0, 1, 4, 9]⟩ : SampledTable ℚ).lookup (1 / 4) 1 = some (13 / 2) ∧
    (⟨1 / 10, #[0, 1, 4, 9]⟩ : SampledTable ℚ).lookup 7 1 = some 9 ∧
    IsReading #[0, 1, 4, 9] (5 / 2 : ℚ) (13 / 2) ∧ (13 / 2 : ℚ) ≤ 9 := by
  let := exactScalar (K := ℚ) id id id id fun x _ => x
  have := isExact_exactScalar (K := ℚ) id id id id fun x _ => x
  have hmiddle : (⟨1 / 10, #[0, 1, 4, 9]⟩ : SampledTable ℚ).lookup (1 / 4) 1 = some (13 / 2) := by
    decide +kernel
  have hend : (⟨1 / 10, #[0, 1, 4, 9]⟩ : SampledTable ℚ).lookup 7 1 = some 9 := by decide +kernel
  have hrise : ∀ i j (hj : j < #[(0 : ℚ), 1, 4, 9].size) (hij : i ≤ j),
      #[(0 : ℚ), 1, 4, 9][i] ≤ #[(0 : ℚ), 1, 4, 9][j] := by
    have h : ∀ i j : Fin 4, i ≤ j → #[(0 : ℚ), 1, 4, 9][i] ≤ #[(0 : ℚ), 1, 4, 9][j] := by
      decide +kernel
    exact fun i j hj hij => h ⟨i, hij.trans_lt hj⟩ ⟨j, hj⟩ hij
  obtain ⟨hreads, horder⟩ := lookup_isReading (⟨1 / 10, #[0, 1, 4, 9]⟩ : SampledTable ℚ) 1
    (by decide +kernel) (by decide)
  obtain ⟨v, hv, hreading⟩ := hreads (1 / 4) (by norm_num)
  refine ⟨hmiddle, hend, ?_, (horder (1 / 4) 7 _ _ (by norm_num) (by norm_num) hmiddle hend).1 hrise⟩
  rw [hmiddle, Option.some_inj] at hv
  norm_num at hreading
  rw [hv]
  exact hreading

end SampledTable

end MuonSpin
