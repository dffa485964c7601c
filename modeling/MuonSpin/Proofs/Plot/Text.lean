import MuonSpin.Proofs.Numeric.NearestWhole
import MuonSpin.Proofs.Plot.Visible
import MuonSpin.Proofs.Report.Csv

/-!
# The text of a plot

The cells of a plot come from floating-point arithmetic, whose operands may be anything: the data can be
infinite or undefined, and a window can have no extent or one that overflows.

* `Window.inside_cell`: **a point has a cell on the canvas**, whatever the window and the point are;
  `inside_pathCells`: so have the lines between such cells;
* `Canvas.IsPlot`: the size and the characters of a plot, which drawing keeps;
* `IsPlotText`: the lines of a plot; `IsPlotText.splitOn`: a reader finds them at the line feeds, unless
  the name of a run has one;
* **`renderPlot_lines`**: every plot has such a text.
-/

namespace MuonSpin

/-! ## The cells of a plot -/

/-- **A position** is from zero to one, or undefined, whatever the interval and the value are. -/
theorem Interval.within_position (i : Interval Float) (v : Float) : Within 1 (i.position v) :=
  within_between _

namespace Window

variable {w : Window Float} {n : ℕ}

theorem column_lt (hpos : 0 < n) (hn : n < 2 ^ 53) (t : Float) : w.column n t < n := by
  have hlast := StandsFor.natCast_sub_one hpos hn
  have hle := ((w.times.within_position t).mul hlast (by omega)).toIndex_nearestWhole_le (by omega)
  exact Nat.lt_of_le_pred hpos hle

theorem row_lt (hpos : 0 < n) (hn : n < 2 ^ 53) (v : Float) : w.row n v < n := by
  have hlast := StandsFor.natCast_sub_one hpos hn
  have hle := (((w.values.within_position v).mul hlast (by omega)).sub hlast
    (by omega)).toIndex_nearestWhole_le (by omega)
  exact Nat.lt_of_le_pred hpos hle

/-- **A point has a cell on the canvas**, whatever the window and the point are. -/
theorem inside_cell {canvas : Canvas} (hwidth : 0 < canvas.width ∧ canvas.width < 2 ^ 53)
    (hheight : 0 < canvas.height ∧ canvas.height < 2 ^ 53) (w : Window Float)
    (point : Float × Float) : canvas.inside (w.cell canvas point) = true :=
  Canvas.inside_iff.2 ⟨column_lt hwidth.1 hwidth.2 point.1, row_lt hheight.1 hheight.2 point.2⟩

end Window

theorem inside_pathCells {canvas : Canvas} {path : List Cell}
    (h : ∀ cell ∈ path, canvas.inside cell = true) :
    ∀ cell ∈ pathCells path, canvas.inside cell = true := by
  have hlines : ∀ (rest : List Cell) (start : Cell), canvas.inside start = true →
      (∀ cell ∈ rest, canvas.inside cell = true) →
      ∀ cell ∈ linesFrom start rest, canvas.inside cell = true := by
    intro rest
    induction rest with
    | nil =>
      intro start _ _ cell hcell
      cases hcell
    | cons stop rest ih =>
      intro start hstart hrest cell hcell
      obtain ⟨hstop, hrest⟩ := List.forall_mem_cons.1 hrest
      rcases List.mem_append.1 hcell with hcell | hcell
      · exact ((isLine_lineCells start stop).between cell hcell).inside hstart hstop
      · exact ih stop hstop hrest cell hcell
  rcases path with _ | ⟨first, rest⟩
  · exact h
  · obtain ⟨hfirst, hrest⟩ := List.forall_mem_cons.1 h
    exact List.forall_mem_cons.2 ⟨hfirst, hlines rest first hfirst hrest⟩

/-! ## The canvas of a plot -/

/-- The characters of a plot. -/
def plotMarks : List Char := ' ' :: 'o' :: curveMarks

theorem newline_not_mem_plotMarks : '\n' ∉ plotMarks := by decide

theorem curveMark_mem (i : Nat) : curveMark i ∈ plotMarks := by
  have hmarks : ∀ i < curveMarks.length, curveMarks.getD i '-' ∈ plotMarks := by decide
  exact hmarks _ (Nat.mod_lt i (by decide))

namespace Canvas

/-- A canvas of the given size with the characters of a plot. -/
structure IsPlot (width height : Nat) (canvas : Canvas) : Prop where
  width_eq : canvas.width = width
  height_eq : canvas.height = height
  marks : ∀ c ∈ canvas.cells, c ∈ plotMarks

section IsPlot

variable {width height : Nat} {canvas canvas' : Canvas} {mark : Char}

theorem isPlot_blank (width height : Nat) : (blank width height).IsPlot width height := by
  refine ⟨rfl, rfl, fun c hc => ?_⟩
  rw [(Array.mem_replicate.1 hc).2]
  decide

theorem IsPlot.set (h : canvas.IsPlot width height) (i : Nat) (hmark : mark ∈ plotMarks) :
    (canvas.set i mark).IsPlot width height := by
  refine ⟨h.width_eq, h.height_eq, fun c hc => ?_⟩
  rcases Array.mem_or_eq_of_mem_setIfInBounds hc with hc | rfl
  · exact h.marks c hc
  · exact hmark

theorem IsPlot.paint (h : canvas.IsPlot width height) (hmark : mark ∈ plotMarks) (cell : Cell) :
    (canvas.paint mark cell).IsPlot width height := by
  unfold Canvas.paint
  split_ifs
  · exact h.set _ hmark
  · exact h

theorem IsPlot.foldl_paint (h : canvas.IsPlot width height) (hmark : mark ∈ plotMarks)
    (cells : List Cell) : (cells.foldl (Canvas.paint mark) canvas).IsPlot width height := by
  induction cells generalizing canvas with
  | nil => exact h
  | cons cell cells ih => exact ih (h.paint hmark cell)

theorem IsPlot.put? {cell : Cell} (h : canvas.IsPlot width height) (hmark : mark ∈ plotMarks)
    (hput : canvas.put? cell mark = some canvas') : canvas'.IsPlot width height := by
  unfold Canvas.put? at hput
  split_ifs at hput
  cases hput
  exact h.set _ hmark

theorem IsPlot.drawCells? {path : List Cell} (h : canvas.IsPlot width height)
    (hmark : mark ∈ plotMarks) (hdraw : canvas.drawCells? mark path = some canvas') :
    canvas'.IsPlot width height := by
  rcases drawCells?_eq_some_iff.1 hdraw with ⟨-, rfl⟩ | ⟨first, rest, -, -, rfl⟩
  · exact h
  · rw [drawLines_eq]
    exact (h.set _ hmark).foldl_paint hmark _

variable {w : Window Float} {points : List (Float × Float)}

theorem IsPlot.drawCurves? {curves : List (List (Float × Float))} (h : canvas.IsPlot width height)
    (hdraw : canvas.drawCurves? w curves = some canvas') : canvas'.IsPlot width height := by
  induction curves using List.reverseRecOn generalizing canvas' with
  | nil =>
    cases hdraw
    exact h
  | append_singleton curves points ih =>
    rw [drawCurves?_append, Option.bind_eq_some_iff] at hdraw
    obtain ⟨canvas₁, hcurves, hpoints⟩ := hdraw
    exact (ih hcurves).drawCells? (curveMark_mem _) hpoints

theorem IsPlot.drawPoints? (h : canvas.IsPlot width height)
    (hdraw : canvas.drawPoints? w points = some canvas') : canvas'.IsPlot width height := by
  unfold Canvas.drawPoints? at hdraw
  generalize points.filter isFinitePoint = finite at hdraw
  induction finite generalizing canvas with
  | nil =>
    cases hdraw
    exact h
  | cons point finite ih =>
    rw [List.foldlM_cons, Option.bind_eq_bind, Option.bind_eq_some_iff] at hdraw
    obtain ⟨canvas₁, hput, hrest⟩ := hdraw
    exact ih (h.put? (by decide) hput) hrest

theorem IsPlot.isSome_drawPoints? (h : canvas.IsPlot width height)
    (hinside : ∀ {canvas : Canvas}, canvas.IsPlot width height →
      ∀ point, canvas.inside (w.cell canvas point) = true) (points : List (Float × Float)) :
    (canvas.drawPoints? w points).isSome = true := by
  unfold Canvas.drawPoints?
  induction points.filter isFinitePoint generalizing canvas with
  | nil => rfl
  | cons point finite ih =>
    have hput : canvas.put? (w.cell canvas point) 'o' =
        some (canvas.set (canvas.index (w.cell canvas point)) 'o') := if_pos (hinside h point)
    rw [List.foldlM_cons, hput]
    exact ih (h.put? (by decide) hput)

theorem length_rows (canvas : Canvas) : canvas.rows.length = canvas.height := by
  simp [rows]

theorem IsPlot.length_row (h : canvas.IsPlot width height) {row : List Char}
    (hrow : row ∈ canvas.rows) : row.length = width := by
  obtain ⟨y, hy, rfl⟩ := List.mem_map.1 hrow
  have hle : (y + 1) * canvas.width ≤ canvas.height * canvas.width :=
    Nat.mul_le_mul_right _ (List.mem_range.1 hy)
  have hsize := canvas.size_cells
  rw [Nat.mul_comm] at hsize
  rw [Nat.add_mul, Nat.one_mul] at hle
  rw [row, Array.length_toList, Array.size_extract, hsize, ← h.width_eq]
  omega

theorem IsPlot.mem_row (h : canvas.IsPlot width height) {row : List Char}
    (hrow : row ∈ canvas.rows) : ∀ c ∈ row, c ∈ plotMarks := by
  obtain ⟨y, -, rfl⟩ := List.mem_map.1 hrow
  intro c hc
  rw [row, Array.toList_extract, List.extract_eq_take_drop] at hc
  exact h.marks c (Array.mem_toList_iff.1 (List.mem_of_mem_drop (List.mem_of_mem_take hc)))

end IsPlot

end Canvas

/-- **The canvas of a plot** whose sides have a width that a floating-point number can tell. -/
theorem isSome_plotCanvas? (w : Window Float) (curves : List (List (Float × Float)))
    (points : List (Float × Float)) {width height : Nat} (hwidth : width < 2 ^ 53)
    (hheight : height < 2 ^ 53) : (plotCanvas? w curves points width height).isSome = true := by
  have hinside : ∀ {canvas : Canvas}, canvas.IsPlot (max width 10) (max height 5) →
      ∀ point, canvas.inside (w.cell canvas point) = true := by
    intro canvas h point
    refine w.inside_cell ?_ ?_ point
    · rw [h.width_eq]
      omega
    · rw [h.height_eq]
      omega
  have hblank := Canvas.isPlot_blank (max width 10) (max height 5)
  have hcurves : ((Canvas.blank (max width 10) (max height 5)).drawCurves? w curves).isSome =
      true := by
    refine Canvas.isSome_drawCurves?_iff.2 fun path hpath first hfirst => ?_
    obtain ⟨samples, -, rfl⟩ := List.mem_map.1 hpath
    obtain ⟨point, -, rfl⟩ := List.mem_map.1 (List.mem_of_mem_head? hfirst)
    exact hinside hblank point
  obtain ⟨canvas, hcanvas⟩ := Option.isSome_iff_exists.1 hcurves
  rw [plotCanvas?, hcanvas]
  exact (hblank.drawCurves? hcanvas).isSome_drawPoints? hinside points

theorem isPlot_plotCanvas? {w : Window Float} {curves : List (List (Float × Float))}
    {points : List (Float × Float)} {width height : Nat} {canvas : Canvas}
    (h : plotCanvas? w curves points width height = some canvas) :
    canvas.IsPlot (max width 10) (max height 5) := by
  obtain ⟨canvas₁, hcurves, hpoints⟩ := Option.bind_eq_some_iff.1 h
  exact ((Canvas.isPlot_blank _ _).drawCurves? hcurves).drawPoints? hpoints

/-! ## The lines of a plot -/

/-- The line of the legend that names a curve. -/
def legendLine (i : Nat) (curve : Curve) : List Char :=
  [' ', ' ', curveMark i, ' '] ++ curve.run.toList

/-- The legend of a plot: a line for each curve, if there is more than one. -/
def legendLines (curves : List Curve) : List (List Char) :=
  if 1 < curves.length then curves.mapIdx legendLine else []

/-- **The lines of a plot**, each with a line feed behind it: a heading, the rows, and the legend. -/
structure IsPlotText (curves : List Curve) (width height : Nat) (heading : List Char)
    (rows : List (List Char)) (text : String) : Prop where
  toList : text.toList = (heading :: rows ++ legendLines curves).flatMap (· ++ ['\n'])
  heading : '\n' ∉ heading
  length_rows : rows.length = max height 5
  length_row : ∀ row ∈ rows, row.length = max width 10
  marks : ∀ row ∈ rows, ∀ c ∈ row, c ∈ plotMarks

section Lines

variable {curves : List Curve} {width height : Nat} {heading : List Char} {rows lines : List (List Char)}
  {text : String}

theorem splitOn_lines (h : ∀ line ∈ lines, '\n' ∉ line) :
    (lines.flatMap (· ++ ['\n'])).splitOn '\n' = lines ++ [[]] := by
  induction lines with
  | nil => rfl
  | cons line lines ih =>
    obtain ⟨hline, hlines⟩ := List.forall_mem_cons.1 h
    rw [List.flatMap_cons, List.append_assoc, List.singleton_append,
      List.splitOn_append_cons_self_of_not_mem hline, ih hlines, List.cons_append]

/-- **A reader** finds the lines of a plot, unless the name of a run has a line feed. -/
theorem IsPlotText.splitOn (h : IsPlotText curves width height heading rows text)
    (hruns : ∀ curve ∈ curves, '\n' ∉ curve.run.toList) :
    text.toList.splitOn '\n' = heading :: rows ++ legendLines curves ++ [[]] := by
  rw [h.toList, splitOn_lines]
  intro line hline
  rcases List.mem_append.1 hline with hline | hline
  · rcases List.mem_cons.1 hline with rfl | hline
    · exact h.heading
    · exact fun hc => newline_not_mem_plotMarks (h.marks line hline _ hc)
  · unfold legendLines at hline
    split_ifs at hline
    · obtain ⟨i, hi, rfl⟩ := List.mem_mapIdx.1 hline
      have hname := hruns _ (List.getElem_mem hi)
      have hcurve : '\n' ≠ curveMark i := fun heq =>
        newline_not_mem_plotMarks (heq ▸ curveMark_mem i)
      simp [legendLine, hname, hcurve]
    · cases hline

theorem not_mem_fixedText (places : Nat) (x : Float) : '\n' ∉ (fixedText places x).toList :=
  fun h => (isField_fixedText places x _ h).2 rfl

theorem exists_plotHeading (w : Window Float) :
    ∃ heading, '\n' ∉ heading ∧ (plotHeading w).toList = heading ++ ['\n'] := by
  refine ⟨("Plot: t=[" ++ fixedText 3 w.times.low ++ ", " ++ fixedText 3 w.times.high ++
    "] us | P=[" ++ fixedText 4 w.values.low ++ ", " ++ fixedText 4 w.values.high ++ "]").toList,
    ?_, ?_⟩
  · simp [not_mem_fixedText]
  · delta plotHeading
    simp

theorem toList_legend (curves : List Curve) :
    (if 1 < curves.length then legend curves else "").toList =
      (legendLines curves).flatMap (· ++ ['\n']) := by
  unfold legendLines
  split_ifs
  · rw [legend, String.toList_join, List.mapIdx_eq_zipIdx_map, List.mapIdx_eq_zipIdx_map,
      List.flatMap_map, List.flatMap_map]
    simp [legendLine]
  · rfl

theorem toList_rows (rows : List (List Char)) :
    (String.join (rows.map fun row => String.ofList row ++ "\n")).toList =
      rows.flatMap (· ++ ['\n']) := by
  rw [String.toList_join, List.flatMap_map]
  simp

/-- **The text of a plot** consists of its lines. -/
theorem exists_isPlotText {points : List (Float × Float)}
    (h : renderPlot curves points width height = some text) :
    ∃ heading rows, (plotHeading (plotWindow curves points)).toList = heading ++ ['\n'] ∧
      IsPlotText curves width height heading rows text := by
  obtain ⟨canvas, hcanvas, rfl⟩ := Option.map_eq_some_iff.1 h
  have hplot := isPlot_plotCanvas? hcanvas
  obtain ⟨heading, hheading, htext⟩ := exists_plotHeading (plotWindow curves points)
  refine ⟨heading, canvas.rows, htext, ?_, hheading, ?_, fun row => hplot.length_row,
    fun row => hplot.mem_row⟩
  · rw [String.toList_append, String.toList_append, htext, toList_rows, toList_legend]
    simp
  · rw [canvas.length_rows, hplot.height_eq]

end Lines

/-- **Plots.** A plot of curves and points is drawn whatever the data are: the cells of the samples, of
the lines between them and of the points are on the canvas. Its text has a heading, as many rows as the
plot is high, each with as many characters as it is wide, and a line for each curve if there is more than
one curve.

A canvas with `2 ^ 53` columns or rows has no place in memory; up to there the sides have floating-point
numbers of their own. -/
theorem renderPlot_lines (curves : List Curve) (points : List (Float × Float)) (width height : Nat) :
    (width < 2 ^ 53 → height < 2 ^ 53 →
      (renderPlot curves points width height).isSome = true ∧
      ∀ w : Window Float,
        (∀ samples, ∀ cell ∈ pathCells (w.path (Canvas.blank (max width 10) (max height 5)) samples),
          (Canvas.blank (max width 10) (max height 5)).inside cell = true) ∧
        ∀ point, (Canvas.blank (max width 10) (max height 5)).inside
          (w.cell (Canvas.blank (max width 10) (max height 5)) point) = true) ∧
    ∀ text, renderPlot curves points width height = some text → ∃ heading rows,
      (plotHeading (plotWindow curves points)).toList = heading ++ ['\n'] ∧
      IsPlotText curves width height heading rows text ∧
      (legendLines curves).length = (if 1 < curves.length then curves.length else 0) ∧
      ((∀ curve ∈ curves, '\n' ∉ curve.run.toList) →
        text.toList.splitOn '\n' = heading :: rows ++ legendLines curves ++ [[]]) := by
  refine ⟨fun hwidth hheight => ⟨?_, fun w => ?_⟩, fun text h => ?_⟩
  · rw [renderPlot, Option.isSome_map]
    exact isSome_plotCanvas? _ _ points hwidth hheight
  · have hinside : ∀ point, (Canvas.blank (max width 10) (max height 5)).inside
        (w.cell (Canvas.blank (max width 10) (max height 5)) point) = true := by
      refine w.inside_cell ?_ ?_
      · change 0 < max width 10 ∧ max width 10 < 2 ^ 53
        omega
      · change 0 < max height 5 ∧ max height 5 < 2 ^ 53
        omega
    refine ⟨fun samples => inside_pathCells fun cell hcell => ?_, hinside⟩
    obtain ⟨point, -, rfl⟩ := List.mem_map.1 hcell
    exact hinside point
  · obtain ⟨heading, rows, hheading, hlines⟩ := exists_isPlotText h
    refine ⟨heading, rows, hheading, hlines, ?_, hlines.splitOn⟩
    unfold legendLines
    split_ifs
    · exact List.length_mapIdx
    · rfl

/-- A plot of two curves and a point with infinite and undefined data, of the least size. -/
theorem renderPlot_lines_undefined :
    ∃ text, renderPlot [⟨"a", [0.0, 1.0 / 0.0, 2.0], [0.0 / 0.0, 1.0]⟩, ⟨"b", [1.0], [0.5, 0.25]⟩]
        [(0.5, -1.0 / 0.0)] 0 3 = some text ∧
      (text.toList.splitOn '\n').length = 1 + 5 + 2 + 1 := by
  obtain ⟨hsome, hlines⟩ := renderPlot_lines
    [⟨"a", [0.0, 1.0 / 0.0, 2.0], [0.0 / 0.0, 1.0]⟩, ⟨"b", [1.0], [0.5, 0.25]⟩]
    [(0.5, -1.0 / 0.0)] 0 3
  obtain ⟨text, htext⟩ := Option.isSome_iff_exists.1 (hsome (by decide) (by decide)).1
  obtain ⟨heading, rows, -, hplot, hlegend, hsplit⟩ := hlines text htext
  refine ⟨text, htext, ?_⟩
  rw [hsplit (by simp), List.length_append, List.length_append, List.length_cons,
    hplot.length_rows, hlegend]
  rfl

end MuonSpin
