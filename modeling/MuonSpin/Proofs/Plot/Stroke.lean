import Mathlib.Data.List.Chain
import Mathlib.Logic.Function.Iterate
import Mathlib.Tactic.Linarith
import Mathlib.Tactic.Ring
import MuonSpin.Plot.Canvas

/-!
# The way of a line

A line between two cells moves by one cell in its longer direction with every step, and sideways
whenever it would be more than half a cell away from the ideal line.

* `Stroke.penAt`: the pen behind a number of columns and rows; its error term is the distance from the
  ideal line (`Stroke.offset`) and a constant;
* `Stroke.advance_shallow`, `Stroke.advance_steep`: one step, in the two cases of which direction is
  the longer one; `Stroke.exists_iterate`: **the distance stays within half of the longer direction**;
* `Stroke.isAtEnd_iterate`: the end is reached behind as many steps as the longer direction has cells,
  and not before.
-/

namespace MuonSpin

namespace Stroke

variable (s : Stroke)

/-- The number of columns between the ends. -/
def columns : Nat := ((s.stop.x : Int) - s.start.x).natAbs

/-- The number of rows between the ends. -/
def rows : Nat := ((s.stop.y : Int) - s.start.y).natAbs

/-- The number of steps from one end to the other. -/
def length : Nat := max s.columns s.rows

theorem dx_eq : s.dx = s.columns := rfl

theorem dy_eq : s.dy = -s.rows := rfl

theorem stop_x : (s.stop.x : Int) = s.start.x + s.columns * s.stepX := by
  unfold columns stepX
  split_ifs <;> omega

theorem stop_y : (s.stop.y : Int) = s.start.y + s.rows * s.stepY := by
  unfold rows stepY
  split_ifs <;> omega

/-! ## One step -/

/-- How far the cell behind `i` columns and `j` rows is from the ideal line. -/
def offset (i j : Nat) : Int := s.columns * j - s.rows * i

/-- The pen behind `i` columns and `j` rows. -/
def penAt (i j : Nat) : Pen :=
  ⟨s.start.x + i * s.stepX, s.start.y + j * s.stepY, s.offset i j + s.columns - s.rows⟩

theorem pen_eq : s.pen = s.penAt 0 0 := by
  simp [pen, penAt, offset, dx_eq, dy_eq, sub_eq_add_neg]

theorem offset_right (i j : Nat) : s.offset (i + 1) j = s.offset i j - s.rows := by
  unfold offset
  push_cast
  ring

theorem offset_down (i j : Nat) : s.offset i (j + 1) = s.offset i j + s.columns := by
  unfold offset
  push_cast
  ring

/-- A step goes to the side unless the line is too far below, and down unless it is too far above. -/
theorem advance_penAt (i j : Nat) :
    s.advance (s.penAt i j) =
      s.penAt (if (s.rows : Int) ≤ 2 * s.offset i j + 2 * s.columns then i + 1 else i)
        (if 2 * s.offset i j ≤ 2 * s.rows - s.columns then j + 1 else j) := by
  have hright : -(s.rows : Int) ≤ 2 * (s.offset i j + s.columns - s.rows) ↔
      (s.rows : Int) ≤ 2 * s.offset i j + 2 * s.columns := by
    omega
  have hdown : 2 * (s.offset i j + s.columns - s.rows) ≤ s.columns ↔
      2 * s.offset i j ≤ 2 * s.rows - s.columns := by
    omega
  have hx : (s.start.x : Int) + i * s.stepX + s.stepX = s.start.x + (i + 1 : Nat) * s.stepX := by
    push_cast
    ring
  have hy : (s.start.y : Int) + j * s.stepY + s.stepY = s.start.y + (j + 1 : Nat) * s.stepY := by
    push_cast
    ring
  simp only [advance, penAt, dx_eq, dy_eq, hright, hdown]
  split_ifs <;> simp only [offset_right, offset_down, hx, hy, Pen.mk.injEq, true_and] <;> ring

/-- Within half of the longer direction from the ideal line. -/
def Near (i j : Nat) : Prop :=
  2 * s.offset i j ≤ s.length ∧ -(s.length : Int) ≤ 2 * s.offset i j

/-- The pen behind so many steps: every step of a line that is not steep goes to the side, every step
of a steep one down. -/
structure Reaches (k i j : Nat) : Prop where
  near : s.Near i j
  shallow : s.rows ≤ s.columns → i = k ∧ j ≤ k
  steep : s.columns < s.rows → j = k ∧ i ≤ k

variable {s} {i j k : Nat}

theorem advance_shallow (hs : s.rows ≤ s.columns) (h : s.Near i j) :
    ∃ j', s.advance (s.penAt i j) = s.penAt (i + 1) j' ∧ s.Near (i + 1) j' ∧
      (j' = j ∨ j' = j + 1) := by
  obtain ⟨habove, hbelow⟩ := h
  have hlength : s.length = s.columns := max_eq_left hs
  have hright : (s.rows : Int) ≤ 2 * s.offset i j + 2 * s.columns := by omega
  rw [advance_penAt, if_pos hright]
  by_cases hdown : 2 * s.offset i j ≤ 2 * s.rows - s.columns
  · rw [if_pos hdown]
    refine ⟨j + 1, rfl, ?_, .inr rfl⟩
    rw [Near, offset_down, offset_right]
    omega
  · rw [if_neg hdown]
    refine ⟨j, rfl, ?_, .inl rfl⟩
    rw [Near, offset_right]
    omega

theorem advance_steep (hs : s.columns < s.rows) (h : s.Near i j) :
    ∃ i', s.advance (s.penAt i j) = s.penAt i' (j + 1) ∧ s.Near i' (j + 1) ∧
      (i' = i ∨ i' = i + 1) := by
  obtain ⟨habove, hbelow⟩ := h
  have hlength : s.length = s.rows := max_eq_right hs.le
  have hdown : 2 * s.offset i j ≤ 2 * s.rows - s.columns := by omega
  rw [advance_penAt, if_pos hdown]
  by_cases hright : (s.rows : Int) ≤ 2 * s.offset i j + 2 * s.columns
  · rw [if_pos hright]
    refine ⟨i + 1, rfl, ?_, .inr rfl⟩
    rw [Near, offset_down, offset_right]
    omega
  · rw [if_neg hright]
    refine ⟨i, rfl, ?_, .inl rfl⟩
    rw [Near, offset_down]
    omega

/-- **One step.** The pen moves by at most one column and one row, and stays near. -/
theorem Reaches.advance (h : s.Reaches k i j) :
    ∃ i' j', s.advance (s.penAt i j) = s.penAt i' j' ∧ s.Reaches (k + 1) i' j' ∧
      (i' = i ∨ i' = i + 1) ∧ (j' = j ∨ j' = j + 1) := by
  by_cases hs : s.rows ≤ s.columns
  · obtain ⟨j', hadvance, hnear, hj⟩ := advance_shallow hs h.near
    obtain ⟨rfl, hjk⟩ := h.shallow hs
    exact ⟨i + 1, j', hadvance, ⟨hnear, fun _ => by omega, fun _ => by omega⟩, .inr rfl, hj⟩
  · have hs' : s.columns < s.rows := by omega
    obtain ⟨i', hadvance, hnear, hi⟩ := advance_steep hs' h.near
    obtain ⟨rfl, hik⟩ := h.steep hs'
    exact ⟨i', j + 1, hadvance, ⟨hnear, fun _ => by omega, fun _ => by omega⟩, hi, .inr rfl⟩

/-! ## All steps -/

variable (s) in
theorem exists_iterate (k : Nat) :
    ∃ i j, s.advance^[k] s.pen = s.penAt i j ∧ s.Reaches k i j := by
  induction k with
  | zero =>
    refine ⟨0, 0, s.pen_eq, ?_, fun _ => ⟨rfl, le_rfl⟩, fun _ => ⟨rfl, le_rfl⟩⟩
    simp [Near, offset]
  | succ k ih =>
    obtain ⟨i, j, hpen, hreaches⟩ := ih
    obtain ⟨i', j', hadvance, hreaches', -⟩ := hreaches.advance
    exact ⟨i', j', by rw [Function.iterate_succ_apply', hpen, hadvance], hreaches'⟩

/-- Whoever is near has not gone too far in the shorter direction. -/
theorem le_of_near {a b i j : Nat} (ha : 0 < a) (hi : i ≤ a)
    (h : 2 * ((a : Int) * j - b * i) ≤ a) : j ≤ b := by
  by_contra hj
  have hlower : (a : Int) * (b + 1) ≤ a * j := mul_le_mul_of_nonneg_left (by omega) (by omega)
  have hupper : (b : Int) * i ≤ b * a := mul_le_mul_of_nonneg_left (by omega) (by omega)
  nlinarith

/-- Whoever is near at the end of the longer direction has come to the end of the shorter one. -/
theorem ge_of_near {a b j : Nat} (ha : 0 < a) (h : -(a : Int) ≤ 2 * ((a : Int) * j - b * a)) :
    b ≤ j := by
  by_contra hj
  have hupper : (a : Int) * j ≤ a * (b - 1) := mul_le_mul_of_nonneg_left (by omega) (by omega)
  nlinarith

theorem Reaches.le (h : s.Reaches k i j) (hk : k ≤ s.length) : i ≤ s.columns ∧ j ≤ s.rows := by
  obtain ⟨⟨habove, hbelow⟩, hshallow, hsteep⟩ := h
  unfold offset length at *
  by_cases hs : s.rows ≤ s.columns
  · obtain ⟨rfl, hjk⟩ := hshallow hs
    rw [max_eq_left hs] at hk habove
    refine ⟨hk, ?_⟩
    rcases Nat.eq_zero_or_pos s.columns with h0 | hpos
    · omega
    · exact le_of_near hpos hk habove
  · have hs' : s.columns < s.rows := by omega
    obtain ⟨rfl, hik⟩ := hsteep hs'
    rw [max_eq_right hs'.le] at hk hbelow
    have hbelow' : 2 * ((s.rows : Int) * i - s.columns * j) ≤ s.rows := by omega
    have hpos : 0 < s.rows := by omega
    exact ⟨le_of_near hpos hk hbelow', hk⟩

theorem Reaches.eq_of_length (h : s.Reaches s.length i j) : i = s.columns ∧ j = s.rows := by
  obtain ⟨hi, hj⟩ := h.le le_rfl
  obtain ⟨⟨habove, hbelow⟩, hshallow, hsteep⟩ := h
  unfold offset length at *
  by_cases hs : s.rows ≤ s.columns
  · obtain ⟨hik, -⟩ := hshallow hs
    rw [max_eq_left hs] at hik hbelow
    refine ⟨hik, ?_⟩
    rcases Nat.eq_zero_or_pos s.columns with h0 | hpos
    · omega
    · rw [hik] at hbelow
      exact le_antisymm hj (ge_of_near hpos hbelow)
  · have hs' : s.columns < s.rows := by omega
    obtain ⟨hjk, -⟩ := hsteep hs'
    rw [max_eq_right hs'.le] at hjk habove
    rw [hjk] at habove
    have hbelow' : -(s.rows : Int) ≤ 2 * ((s.rows : Int) * i - s.columns * s.rows) := by omega
    have hpos : 0 < s.rows := by omega
    exact ⟨le_antisymm hi (ge_of_near hpos hbelow'), hjk⟩

theorem isAtEnd_penAt : s.isAtEnd (s.penAt i j) = true ↔ i = s.columns ∧ j = s.rows := by
  have hx : (s.start.x : Int) + i * s.stepX = s.stop.x ↔ i = s.columns := by
    rw [stop_x]
    unfold stepX
    split_ifs <;> omega
  have hy : (s.start.y : Int) + j * s.stepY = s.stop.y ↔ j = s.rows := by
    rw [stop_y]
    unfold stepY
    split_ifs <;> omega
  simp only [isAtEnd, penAt, Bool.and_eq_true, beq_iff_eq, hx, hy]

/-- **The end is reached** behind `length` steps, and not before. -/
theorem isAtEnd_iterate (hk : k ≤ s.length) :
    s.isAtEnd (s.advance^[k] s.pen) = true ↔ k = s.length := by
  obtain ⟨i, j, hpen, hreaches⟩ := s.exists_iterate k
  rw [hpen, isAtEnd_penAt]
  constructor
  · rintro ⟨rfl, rfl⟩
    by_cases hs : s.rows ≤ s.columns
    · have hlength : s.length = s.columns := max_eq_left hs
      have := (hreaches.shallow hs).1
      omega
    · have hlength : s.length = s.rows := max_eq_right (by omega)
      have := (hreaches.steep (by omega)).1
      omega
  · rintro rfl
    exact hreaches.eq_of_length

theorem visit_eq {n fuel : Nat} {p : Pen} (hfuel : n ≤ fuel)
    (hway : ∀ k < n, s.isAtEnd (s.advance^[k] p) = false)
    (hend : s.isAtEnd (s.advance^[n] p) = true) :
    s.visit fuel p = (List.range (n + 1)).map fun k => s.advance^[k] p := by
  induction n generalizing fuel p with
  | zero =>
    rcases fuel with _ | fuel
    · rfl
    · have hp : s.isAtEnd p = true := hend
      rw [visit, if_pos hp]
      rfl
  | succ n ih =>
    obtain ⟨fuel, rfl⟩ : ∃ m, fuel = m + 1 := ⟨fuel - 1, by omega⟩
    have hp : s.isAtEnd p = false := hway 0 (by omega)
    have hrest := @ih fuel (s.advance p) (by omega)
      (fun k hk => hway (k + 1) (by omega)) hend
    rw [visit, if_neg (by simp [hp]), hrest, List.range_succ_eq_map (n := n + 1), List.map_cons,
      List.map_map]
    rfl

variable (s) in
/-- **The points of a line** are the pen and where its steps lead to, whatever the fuel. -/
theorem visit_pen {fuel : Nat} (hfuel : s.length ≤ fuel) :
    s.visit fuel s.pen = (List.range (s.length + 1)).map fun k => s.advance^[k] s.pen := by
  refine visit_eq hfuel (fun k hk => ?_) ((isAtEnd_iterate le_rfl).2 rfl)
  rw [← Bool.not_eq_true, isAtEnd_iterate hk.le]
  omega

variable (s) in
theorem pens_eq : s.pens = (List.range (s.length + 1)).map fun k => s.advance^[k] s.pen := by
  refine s.visit_pen ?_
  have hfuel : s.dx.natAbs + s.dy.natAbs = s.columns + s.rows := by
    rw [dx_eq, dy_eq]
    omega
  rw [hfuel, length]
  omega

end Stroke

end MuonSpin
