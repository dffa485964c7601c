import Mathlib.Data.List.Range
import MuonSpin.Proofs.Plot.Stroke

/-!
# The cells of a line

* `Canvas.get?_paint`, `Canvas.get?_foldl_paint`: painting changes blank cells only;
* `Stroke.cellAt`: the cells on the way of a line;
* `IsLine`: some cells lead from one cell to another, with as few steps as possible and no detour;
* **`drawLine_isLine`**: the loop of a line ends behind that many steps, its cells are such a way, and
  drawing it paints exactly those of them that are blank.
-/

namespace MuonSpin

/-! ## Painting -/

namespace Canvas

variable {canvas : Canvas} {cell cell' : Cell} {mark : Char}

theorem inside_iff : canvas.inside cell = true ↔ cell.x < canvas.width ∧ cell.y < canvas.height := by
  simp [inside]

theorem index_lt (h : canvas.inside cell = true) : canvas.index cell < canvas.cells.size := by
  obtain ⟨hx, hy⟩ := inside_iff.1 h
  have hrow : (cell.y + 1) * canvas.width ≤ canvas.height * canvas.width :=
    Nat.mul_le_mul_right _ hy
  rw [canvas.size_cells, index, Nat.mul_comm canvas.width]
  rw [Nat.add_mul] at hrow
  omega

theorem index_inj (h : canvas.inside cell = true) (h' : canvas.inside cell' = true) :
    canvas.index cell = canvas.index cell' ↔ cell = cell' := by
  obtain ⟨hx, -⟩ := inside_iff.1 h
  obtain ⟨hx', -⟩ := inside_iff.1 h'
  constructor
  · intro hindex
    have hdiv := congrArg (· / canvas.width) hindex
    have hmod := congrArg (· % canvas.width) hindex
    have hpos : 0 < canvas.width := by omega
    simp only [index, Nat.add_comm _ cell.x, Nat.add_comm _ cell'.x,
      Nat.add_mul_div_right _ _ hpos, Nat.add_mul_mod_self_right, Nat.div_eq_of_lt hx,
      Nat.div_eq_of_lt hx', Nat.mod_eq_of_lt hx, Nat.mod_eq_of_lt hx', Nat.zero_add] at hdiv hmod
    rcases cell with ⟨x, y⟩
    rcases cell' with ⟨x', y'⟩
    simp_all
  · rintro rfl
    rfl

theorem get?_of_not_inside (h : canvas.inside cell = false) : canvas.get? cell = none := by
  simp [get?, h]

@[simp] theorem width_set (i : Nat) : (canvas.set i mark).width = canvas.width := rfl

@[simp] theorem height_set (i : Nat) : (canvas.set i mark).height = canvas.height := rfl

theorem get?_set (h : canvas.inside cell = true) (cell' : Cell) :
    (canvas.set (canvas.index cell) mark).get? cell' =
      if cell' = cell then some mark else canvas.get? cell' := by
  have hinside : (canvas.set (canvas.index cell) mark).inside cell' = canvas.inside cell' := rfl
  have hplace : (canvas.set (canvas.index cell) mark).index cell' = canvas.index cell' := rfl
  cases h' : canvas.inside cell' with
  | false =>
    have hne : cell' ≠ cell := by
      rintro rfl
      rw [h] at h'
      cases h'
    rw [if_neg hne, get?_of_not_inside (hinside.trans h'), get?_of_not_inside h']
  | true =>
    rw [get?, get?, hinside, hplace, if_pos h', if_pos h', set, Array.getElem?_setIfInBounds]
    by_cases hcell : cell' = cell
    · rw [if_pos (by rw [hcell]), if_pos (index_lt h), if_pos hcell]
    · rw [if_neg (by rw [index_inj h h']; exact Ne.symm hcell), if_neg hcell]

@[simp] theorem width_paint : (canvas.paint mark cell).width = canvas.width := by
  unfold paint
  split_ifs <;> rfl

@[simp] theorem height_paint : (canvas.paint mark cell).height = canvas.height := by
  unfold paint
  split_ifs <;> rfl

theorem get?_paint (cell' : Cell) :
    (canvas.paint mark cell).get? cell' =
      if cell' = cell ∧ canvas.get? cell' = some ' ' then some mark else canvas.get? cell' := by
  unfold paint
  by_cases hblank : canvas.get? cell = some ' '
  · have hinside : canvas.inside cell = true := by
      by_contra h
      rw [get?_of_not_inside (by simpa using h)] at hblank
      cases hblank
    rw [if_pos hblank, get?_set hinside]
    by_cases hcell : cell' = cell
    · subst hcell
      rw [if_pos rfl, if_pos ⟨rfl, hblank⟩]
    · rw [if_neg hcell, if_neg fun h => hcell h.1]
  · rw [if_neg hblank, if_neg]
    rintro ⟨rfl, h⟩
    exact hblank h

variable {cells : List Cell}

@[simp] theorem width_foldl_paint : (cells.foldl (paint mark) canvas).width = canvas.width := by
  induction cells generalizing canvas with
  | nil => rfl
  | cons cell cells ih => rw [List.foldl_cons, ih, width_paint]

@[simp] theorem height_foldl_paint : (cells.foldl (paint mark) canvas).height = canvas.height := by
  induction cells generalizing canvas with
  | nil => rfl
  | cons cell cells ih => rw [List.foldl_cons, ih, height_paint]

/-- **Painting some cells** changes the blank ones of them. -/
theorem get?_foldl_paint (cell' : Cell) :
    (cells.foldl (paint mark) canvas).get? cell' =
      if cell' ∈ cells ∧ canvas.get? cell' = some ' ' then some mark else canvas.get? cell' := by
  induction cells generalizing canvas with
  | nil => simp
  | cons cell cells ih =>
    rw [List.foldl_cons, ih, get?_paint]
    by_cases hblank : canvas.get? cell' = some ' '
    · by_cases hcell : cell' = cell
      · subst hcell
        simp [hblank]
      · simp [hblank, hcell]
    · simp [hblank]

end Canvas

/-! ## One coordinate -/

/-- A number stays as it is, or comes one nearer to a target. -/
def Nears (target x x' : Nat) : Prop :=
  x' = x ∨ (x < target ∧ x' = x + 1) ∨ (target < x ∧ x' + 1 = x)

/-- The number that is `n` away from `a` in the direction of `b`. -/
def toward (a b n : Nat) : Nat := if a < b then a + n else a - n

section Toward

variable {a b n n' : Nat}

theorem toward_zero : toward a b 0 = a := by
  simp [toward]

theorem toward_distance : toward a b ((b : Int) - a).natAbs = b := by
  unfold toward
  split_ifs <;> omega

theorem cast_toward (h : n ≤ ((b : Int) - a).natAbs) :
    (toward a b n : Int) = a + n * if a < b then 1 else -1 := by
  unfold toward
  split_ifs <;> omega

theorem between_toward (h : n ≤ ((b : Int) - a).natAbs) :
    min a b ≤ toward a b n ∧ toward a b n ≤ max a b := by
  unfold toward
  split_ifs <;> omega

theorem nears_toward (h : n' ≤ ((b : Int) - a).natAbs) (hn : n' = n ∨ n' = n + 1) :
    Nears b (toward a b n) (toward a b n') := by
  unfold Nears toward
  split_ifs <;> omega

end Toward

/-! ## The way -/

namespace Stroke

variable {s : Stroke} {i j k : Nat}

/-- The cell behind `i` columns and `j` rows on the way to the end. -/
def cellAt (s : Stroke) (i j : Nat) : Cell :=
  ⟨toward s.start.x s.stop.x i, toward s.start.y s.stop.y j⟩

theorem cell?_penAt (hi : i ≤ s.columns) (hj : j ≤ s.rows) :
    (s.penAt i j).cell? = some (s.cellAt i j) := by
  have hx : (s.start.x : Int) + i * s.stepX = (toward s.start.x s.stop.x i : Nat) :=
    (cast_toward hi).symm
  have hy : (s.start.y : Int) + j * s.stepY = (toward s.start.y s.stop.y j : Nat) :=
    (cast_toward hj).symm
  simp [Pen.cell?, penAt, hx, hy, cellAt]

variable (s) in
/-- The cell behind so many steps. -/
def cellAfter (k : Nat) : Cell := ⟨(s.advance^[k] s.pen).x.toNat, (s.advance^[k] s.pen).y.toNat⟩

theorem cellAfter_eq (hpen : s.advance^[k] s.pen = s.penAt i j) (hi : i ≤ s.columns)
    (hj : j ≤ s.rows) : s.cellAfter k = s.cellAt i j := by
  have hcell := cell?_penAt hi hj
  unfold Pen.cell? at hcell
  split_ifs at hcell
  rw [cellAfter, hpen]
  exact Option.some.inj hcell

theorem cell?_iterate (hk : k ≤ s.length) :
    (s.advance^[k] s.pen).cell? = some (s.cellAfter k) := by
  obtain ⟨i, j, hpen, hreaches⟩ := s.exists_iterate k
  obtain ⟨hi, hj⟩ := hreaches.le hk
  rw [cellAfter_eq hpen hi hj, hpen, cell?_penAt hi hj]

theorem cellAfter_zero : s.cellAfter 0 = s.start := by
  have hpen : s.advance^[0] s.pen = s.penAt 0 0 := s.pen_eq
  rw [cellAfter_eq hpen (Nat.zero_le _) (Nat.zero_le _), cellAt, toward_zero, toward_zero]

theorem cellAfter_length : s.cellAfter s.length = s.stop := by
  obtain ⟨i, j, hpen, hreaches⟩ := s.exists_iterate s.length
  obtain ⟨rfl, rfl⟩ := hreaches.eq_of_length
  rw [cellAfter_eq hpen le_rfl le_rfl, cellAt, columns, rows, toward_distance, toward_distance]

end Stroke

/-- The cell is in the rectangle that two cells span. -/
structure Cell.Between (cell start stop : Cell) : Prop where
  column : min start.x stop.x ≤ cell.x ∧ cell.x ≤ max start.x stop.x
  row : min start.y stop.y ≤ cell.y ∧ cell.y ≤ max start.y stop.y

namespace Stroke

variable {s : Stroke} {k : Nat}

theorem between_cellAfter (hk : k ≤ s.length) : (s.cellAfter k).Between s.start s.stop := by
  obtain ⟨i, j, hpen, hreaches⟩ := s.exists_iterate k
  obtain ⟨hi, hj⟩ := hreaches.le hk
  rw [cellAfter_eq hpen hi hj]
  exact ⟨between_toward hi, between_toward hj⟩

theorem nears_cellAfter (hk : k < s.length) :
    Nears s.stop.x (s.cellAfter k).x (s.cellAfter (k + 1)).x ∧
      Nears s.stop.y (s.cellAfter k).y (s.cellAfter (k + 1)).y := by
  obtain ⟨i, j, hpen, hreaches⟩ := s.exists_iterate k
  obtain ⟨i', j', hadvance, hreaches', hi, hj⟩ := hreaches.advance
  have hpen' : s.advance^[k + 1] s.pen = s.penAt i' j' := by
    rw [Function.iterate_succ_apply', hpen, hadvance]
  obtain ⟨hi', hj'⟩ := hreaches'.le hk
  rw [cellAfter_eq hpen (by omega) (by omega), cellAfter_eq hpen' hi' hj']
  exact ⟨nears_toward hi' hi, nears_toward hj' hj⟩

end Stroke

/-- The cells lead from one cell to another: every step goes towards the end, by at most one column and
one row, and there are as many steps as the longer direction has. -/
structure IsLine (start stop : Cell) (cells : List Cell) : Prop where
  length : cells.length = (Stroke.mk start stop).length + 1
  first : cells.head? = some start
  last : cells.getLast? = some stop
  between : ∀ cell ∈ cells, cell.Between start stop
  nears : cells.IsChain fun cell next =>
    Nears stop.x cell.x next.x ∧ Nears stop.y cell.y next.y

theorem lineCells_eq (start stop : Cell) :
    lineCells start stop =
      (List.range ((Stroke.mk start stop).length + 1)).map (Stroke.mk start stop).cellAfter := by
  rw [lineCells, Stroke.pens_eq, List.filterMap_map, ← List.filterMap_eq_map]
  refine List.filterMap_congr fun k hk => ?_
  have hk' : k ≤ (Stroke.mk start stop).length := Nat.lt_succ_iff.1 (List.mem_range.1 hk)
  rw [Function.comp_apply, Stroke.cell?_iterate hk']
  rfl

theorem isLine_lineCells (start stop : Cell) : IsLine start stop (lineCells start stop) := by
  rw [lineCells_eq]
  constructor
  · simp
  · rw [List.range_succ_eq_map, List.map_cons, List.head?_cons, Stroke.cellAfter_zero]
  · rw [List.range_succ, List.map_append, List.map_singleton, List.getLast?_concat,
      Stroke.cellAfter_length]
  · intro cell hcell
    obtain ⟨k, hk, rfl⟩ := List.mem_map.1 hcell
    exact Stroke.between_cellAfter (Nat.lt_succ_iff.1 (List.mem_range.1 hk))
  · rw [List.isChain_map, List.isChain_range_succ]
    exact fun k hk => Stroke.nears_cellAfter hk

theorem Cell.Between.inside {canvas : Canvas} {start stop cell : Cell}
    (h : cell.Between start stop) (hstart : canvas.inside start = true)
    (hstop : canvas.inside stop = true) : canvas.inside cell = true := by
  obtain ⟨⟨-, hx⟩, -, hy⟩ := h
  rw [Canvas.inside_iff] at *
  omega

/-! ## Drawing a line -/

/-- The loop of a line reaches the end for the first time behind so many steps. -/
def Stroke.EndsAfter (s : Stroke) (n : Nat) : Prop :=
  (∀ k < n, s.isAtEnd (s.advance^[k] s.pen) = false) ∧ s.isAtEnd (s.advance^[n] s.pen) = true

/-- **A line** ends behind as many steps as its longer direction has, whatever the fuel; its cells lead
straight from one end to the other. Drawing it paints those of its cells that are blank, changes no
other cell and keeps the size of the canvas; a canvas with both ends has all cells of the line. -/
theorem drawLine_isLine (start stop : Cell) :
    (Stroke.mk start stop).EndsAfter (Stroke.mk start stop).length ∧
    (∀ fuel, (Stroke.mk start stop).visit ((Stroke.mk start stop).length + fuel)
      (Stroke.mk start stop).pen = (Stroke.mk start stop).pens) ∧
    (Stroke.mk start stop).pens.map Pen.cell? = (lineCells start stop).map some ∧
    IsLine start stop (lineCells start stop) ∧
    ∀ (mark : Char) (canvas : Canvas),
      (canvas.drawLine mark start stop).width = canvas.width ∧
      (canvas.drawLine mark start stop).height = canvas.height ∧
      (∀ cell, (canvas.drawLine mark start stop).get? cell =
        if cell ∈ lineCells start stop ∧ canvas.get? cell = some ' ' then some mark
        else canvas.get? cell) ∧
      (canvas.inside start = true → canvas.inside stop = true →
        ∀ cell ∈ lineCells start stop, canvas.inside cell = true) := by
  set s : Stroke := ⟨start, stop⟩ with hs
  have hline : IsLine start stop (lineCells start stop) := isLine_lineCells start stop
  have hpens : s.pens.map Pen.cell? = (lineCells start stop).map some := by
    rw [lineCells_eq, Stroke.pens_eq, List.map_map, List.map_map]
    refine List.map_congr_left fun k hk => ?_
    exact Stroke.cell?_iterate (Nat.lt_succ_iff.1 (List.mem_range.1 hk))
  refine ⟨⟨fun k hk => ?_, ?_⟩, fun fuel => ?_, hpens, hline, fun mark canvas => ⟨?_, ?_, ?_, ?_⟩⟩
  · rw [← Bool.not_eq_true, Stroke.isAtEnd_iterate hk.le]
    omega
  · exact (Stroke.isAtEnd_iterate le_rfl).2 rfl
  · rw [s.visit_pen (Nat.le_add_right _ _), s.pens_eq]
  · exact Canvas.width_foldl_paint
  · exact Canvas.height_foldl_paint
  · exact Canvas.get?_foldl_paint
  · exact fun hstart hstop cell hcell => (hline.between cell hcell).inside hstart hstop

/-- A steep line from the lower left to the upper right. -/
theorem drawLine_isLine_steep :
    (Canvas.blank 10 5).inside ⟨3, 4⟩ = true ∧ (Canvas.blank 10 5).inside ⟨5, 0⟩ = true ∧
    (∀ cell ∈ lineCells ⟨3, 4⟩ ⟨5, 0⟩, (Canvas.blank 10 5).inside cell = true) ∧
    lineCells ⟨3, 4⟩ ⟨5, 0⟩ = [⟨3, 4⟩, ⟨4, 3⟩, ⟨4, 2⟩, ⟨5, 1⟩, ⟨5, 0⟩] := by
  have hstart : (Canvas.blank 10 5).inside ⟨3, 4⟩ = true := by decide
  have hstop : (Canvas.blank 10 5).inside ⟨5, 0⟩ = true := by decide
  refine ⟨hstart, hstop, ?_, by decide⟩
  exact ((drawLine_isLine ⟨3, 4⟩ ⟨5, 0⟩).2.2.2.2 '-' (Canvas.blank 10 5)).2.2.2 hstart hstop

end MuonSpin
