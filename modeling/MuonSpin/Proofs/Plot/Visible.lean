import Mathlib.Data.List.Basic
import MuonSpin.Plot.Basic
import MuonSpin.Proofs.Plot.Line

/-!
# What a plot shows

The curves of a plot are drawn one after the other. The lines of a curve paint blank cells only, but its
first sample takes its cell from any earlier curve.

* `pathCells`: the cells of a curve, which are those of its samples and of the lines between them;
* `Shows`: the mark of a cell. It is that of the last curve that starts there, or, if none does, that
  of the first curve that covers the cell; `Shows.append`: what one more curve changes;
* **`plotCanvas?_shows`**: what the cells of a plot show. The mark is that of the first curve that covers
  the cell wherever no later curve starts, and what is drawn stays where no later curve starts;
* `not_first_curve_visible`: a curve that starts on an earlier one hides its mark there.
-/

namespace MuonSpin

/-! ## Paths -/

/-- The cells of the lines from a cell to the next ones in turn. -/
def linesFrom (start : Cell) : List Cell → List Cell
  | [] => []
  | stop :: rest => lineCells start stop ++ linesFrom stop rest

/-- The cells of a curve through some cells: these cells, and those of the lines between them. -/
def pathCells : List Cell → List Cell
  | [] => []
  | first :: rest => first :: linesFrom first rest

theorem stop_mem_lineCells (start stop : Cell) : stop ∈ lineCells start stop :=
  List.mem_of_getLast? (isLine_lineCells start stop).last

theorem mem_pathCells_of_mem {path : List Cell} {cell : Cell} (h : cell ∈ path) :
    cell ∈ pathCells path := by
  have hlines : ∀ (rest : List Cell) (start : Cell), cell ∈ rest → cell ∈ linesFrom start rest := by
    intro rest
    induction rest with
    | nil => intro start hrest; cases hrest
    | cons stop rest ih =>
      intro start hrest
      rw [linesFrom, List.mem_append]
      rcases List.mem_cons.1 hrest with rfl | hrest
      · exact .inl (stop_mem_lineCells start cell)
      · exact .inr (ih stop hrest)
  rcases path with _ | ⟨first, rest⟩
  · cases h
  · rcases List.mem_cons.1 h with rfl | hrest
    · exact List.mem_cons_self
    · exact List.mem_cons_of_mem _ (hlines rest first hrest)

/-! ## Drawing a curve -/

namespace Canvas

variable {canvas canvas' : Canvas} {mark : Char} {cell : Cell} {path : List Cell}

theorem drawLines_eq (mark : Char) (canvas : Canvas) (start : Cell) (rest : List Cell) :
    canvas.drawLines mark start rest = (linesFrom start rest).foldl (paint mark) canvas := by
  induction rest generalizing canvas start with
  | nil => rfl
  | cons stop rest ih => rw [drawLines, ih, linesFrom, List.foldl_append, drawLine]

theorem drawCells?_eq_some_iff : canvas.drawCells? mark path = some canvas' ↔
    (path = [] ∧ canvas' = canvas) ∨
    ∃ first rest, path = first :: rest ∧ canvas.inside first = true ∧
      canvas' = (canvas.set (canvas.index first) mark).drawLines mark first rest := by
  rcases path with _ | ⟨first, rest⟩
  · have hnil : canvas.drawCells? mark [] = some canvas := rfl
    rw [hnil, Option.some_inj]
    constructor
    · rintro rfl
      exact .inl ⟨rfl, rfl⟩
    · rintro (⟨-, rfl⟩ | ⟨first, rest, hpath, -⟩)
      · rfl
      · cases hpath
  · have hcons : canvas.drawCells? mark (first :: rest) =
        (canvas.put? first mark).map fun canvas => canvas.drawLines mark first rest := rfl
    rw [hcons, put?]
    constructor
    · intro h
      split_ifs at h with hinside
      · cases h
        exact .inr ⟨first, rest, rfl, hinside, rfl⟩
      · cases h
    · rintro (⟨hpath, -⟩ | ⟨first', rest', hpath, hinside, rfl⟩)
      · cases hpath
      · cases hpath
        rw [if_pos hinside]
        rfl

theorem size_drawCells? (h : canvas.drawCells? mark path = some canvas') :
    canvas'.width = canvas.width ∧ canvas'.height = canvas.height := by
  rcases drawCells?_eq_some_iff.1 h with ⟨-, rfl⟩ | ⟨first, rest, -, -, rfl⟩
  · exact ⟨rfl, rfl⟩
  · simp [drawLines_eq]

/-- **Drawing a curve** puts its mark on its first cell, whatever is there, and on its other cells that
are blank. -/
theorem get?_drawCells? (h : canvas.drawCells? mark path = some canvas') (cell : Cell) :
    canvas'.get? cell =
      if path.head? = some cell then some mark
      else if cell ∈ pathCells path ∧ canvas.get? cell = some ' ' then some mark
      else canvas.get? cell := by
  rcases drawCells?_eq_some_iff.1 h with ⟨rfl, rfl⟩ | ⟨first, rest, rfl, hinside, rfl⟩
  · simp [pathCells]
  · rw [drawLines_eq, get?_foldl_paint, get?_set hinside]
    by_cases hfirst : cell = first
    · subst hfirst
      by_cases hblank : mark = ' ' <;> simp [hblank]
    · have hne : first ≠ cell := Ne.symm hfirst
      simp [pathCells, hfirst, hne]

end Canvas

/-! ## Marks -/

theorem curveMark_ne_blank (k : Nat) : curveMark k ≠ ' ' := by
  have hmarks : ∀ i < curveMarks.length, curveMarks.getD i '-' ≠ ' ' := by decide
  exact hmarks _ (Nat.mod_lt k (by decide))

section Shows

variable {paths : List (List Cell)} {path : List Cell} {cell : Cell} {mark mark' : Char} {k : Nat}

/-- The first sample of curve `k` is on the cell. -/
def StartsAt (paths : List (List Cell)) (cell : Cell) (k : Nat) : Prop :=
  ∃ path, paths[k]? = some path ∧ path.head? = some cell

/-- The path of curve `k` covers the cell. -/
def Covers (paths : List (List Cell)) (cell : Cell) (k : Nat) : Prop :=
  ∃ path, paths[k]? = some path ∧ cell ∈ pathCells path

/-- Curve `k` is the first one that covers the cell. -/
def FirstCovers (paths : List (List Cell)) (cell : Cell) (k : Nat) : Prop :=
  Covers paths cell k ∧ ∀ i, Covers paths cell i → k ≤ i

/-- The mark of a cell: the last curve that starts there has it, or else the first one that covers it. -/
inductive Shows (paths : List (List Cell)) (cell : Cell) : Char → Prop
  | start {k : Nat} (starts : StartsAt paths cell k) (last : ∀ i, StartsAt paths cell i → i ≤ k) :
    Shows paths cell (curveMark k)
  | line {k : Nat} (noStart : ∀ i, ¬ StartsAt paths cell i) (first : FirstCovers paths cell k) :
    Shows paths cell (curveMark k)
  | blank (uncovered : ∀ i, ¬ Covers paths cell i) : Shows paths cell ' '

theorem StartsAt.covers (h : StartsAt paths cell k) : Covers paths cell k := by
  obtain ⟨path, hpath, hhead⟩ := h
  exact ⟨path, hpath, mem_pathCells_of_mem (List.mem_of_mem_head? hhead)⟩

theorem Shows.unique (h : Shows paths cell mark) (h' : Shows paths cell mark') : mark = mark' := by
  cases h with
  | @start k starts last =>
    cases h' with
    | @start k' starts' last' => rw [le_antisymm (last' k starts) (last k' starts')]
    | line noStart' => exact absurd starts (noStart' k)
    | blank uncovered' => exact absurd starts.covers (uncovered' k)
  | @line k noStart first =>
    cases h' with
    | @start k' starts' => exact absurd starts' (noStart k')
    | @line k' noStart' first' => rw [le_antisymm (first.2 k' first'.1) (first'.2 k first.1)]
    | blank uncovered' => exact absurd first.1 (uncovered' k)
  | blank uncovered =>
    cases h' with
    | @start k' starts' => exact absurd starts'.covers (uncovered k')
    | @line k' noStart' first' => exact absurd first'.1 (uncovered k')
    | blank => rfl

theorem exists_concat_iff {P : List Cell → Prop} :
    (∃ path', (paths ++ [path])[k]? = some path' ∧ P path') ↔
      (∃ path', paths[k]? = some path' ∧ P path') ∨ k = paths.length ∧ P path := by
  rcases lt_trichotomy k paths.length with hk | rfl | hk
  · simp [List.getElem?_append_left hk, hk.ne]
  · simp
  · have hnone : paths[k]? = none := List.getElem?_eq_none hk.le
    have hnone' : (paths ++ [path])[k]? = none := List.getElem?_eq_none (by simp; omega)
    simp [hnone, hnone', hk.ne']

theorem startsAt_append_iff : StartsAt (paths ++ [path]) cell k ↔
    StartsAt paths cell k ∨ k = paths.length ∧ path.head? = some cell :=
  exists_concat_iff

theorem covers_append_iff : Covers (paths ++ [path]) cell k ↔
    Covers paths cell k ∨ k = paths.length ∧ cell ∈ pathCells path :=
  exists_concat_iff

theorem Covers.lt (h : Covers paths cell k) : k < paths.length := by
  obtain ⟨path, hpath, -⟩ := h
  exact (List.getElem?_eq_some_iff.1 hpath).1

theorem FirstCovers.append (h : FirstCovers paths cell k) (path : List Cell) :
    FirstCovers (paths ++ [path]) cell k := by
  refine ⟨covers_append_iff.2 (.inl h.1), fun i hi => ?_⟩
  rcases covers_append_iff.1 hi with hi | ⟨rfl, -⟩
  · exact h.2 i hi
  · exact h.1.lt.le

/-- **One more curve** changes a cell if it starts there, or if it covers the cell and the cell is
blank. -/
theorem Shows.append (h : Shows paths cell mark) (path : List Cell) :
    Shows (paths ++ [path]) cell
      (if path.head? = some cell then curveMark paths.length
        else if cell ∈ pathCells path ∧ mark = ' ' then curveMark paths.length else mark) := by
  by_cases hhead : path.head? = some cell
  · rw [if_pos hhead]
    refine .start (startsAt_append_iff.2 (.inr ⟨rfl, hhead⟩)) fun i hi => ?_
    rcases startsAt_append_iff.1 hi with hi | ⟨rfl, -⟩
    · exact hi.covers.lt.le
    · exact le_rfl
  · have hold : ∀ i, StartsAt (paths ++ [path]) cell i → StartsAt paths cell i := fun i hi =>
      (startsAt_append_iff.1 hi).resolve_right fun hnew => hhead hnew.2
    rw [if_neg hhead]
    cases h with
    | @start k starts last =>
      rw [if_neg fun hblank => curveMark_ne_blank k hblank.2]
      exact .start (startsAt_append_iff.2 (.inl starts)) fun i hi => last i (hold i hi)
    | @line k noStart first =>
      rw [if_neg fun hblank => curveMark_ne_blank k hblank.2]
      exact .line (fun i hi => noStart i (hold i hi)) (first.append path)
    | blank uncovered =>
      by_cases hcovered : cell ∈ pathCells path
      · rw [if_pos ⟨hcovered, rfl⟩]
        refine .line (fun i hi => uncovered i (hold i hi).covers)
          ⟨covers_append_iff.2 (.inr ⟨rfl, hcovered⟩), fun i hi => ?_⟩
        rcases covers_append_iff.1 hi with hi | ⟨rfl, -⟩
        · exact absurd hi (uncovered i)
        · exact le_rfl
      · rw [if_neg fun h => hcovered h.1]
        refine .blank fun i hi => ?_
        rcases covers_append_iff.1 hi with hi | ⟨-, hnew⟩
        · exact uncovered i hi
        · exact hcovered hnew

theorem Shows.firstCovers (h : Shows paths cell mark) (hmark : mark ≠ ' ')
    (hstart : ∀ i k, StartsAt paths cell i → Covers paths cell k → i ≤ k) :
    ∃ k, FirstCovers paths cell k ∧ mark = curveMark k := by
  cases h with
  | @start k starts last => exact ⟨k, ⟨starts.covers, fun i hi => hstart k i starts hi⟩, rfl⟩
  | @line k noStart first => exact ⟨k, first, rfl⟩
  | blank => exact absurd rfl hmark

end Shows

/-! ## Plots -/

theorem Canvas.get?_blank {width height : Nat} {cell : Cell}
    (h : (Canvas.blank width height).inside cell = true) :
    (Canvas.blank width height).get? cell = some ' ' := by
  have hlt := Canvas.index_lt h
  rw [Canvas.get?, if_pos h, Array.getElem?_eq_getElem hlt]
  simp [Canvas.blank]

section Plots

variable {α : Type} [Sub α] [Mul α] [Div α] [Zero α] [NatCast α] [OfScientific α] [LT α]
  [DecidableLT α] [Elementary α]

/-- The cells of the finite samples of a curve. -/
def Window.path (w : Window α) (canvas : Canvas) (points : List (α × α)) : List Cell :=
  (points.filter isFinitePoint).map (w.cell canvas)

/-- The cells of the samples of curves on a plot of the given size. -/
def plotPaths (w : Window α) (curves : List (List (α × α))) (width height : Nat) :
    List (List Cell) :=
  curves.map (w.path (Canvas.blank (max width 10) (max height 5)))

variable {w : Window α} {canvas canvas' : Canvas} {curves : List (List (α × α))}
  {points : List (α × α)}

theorem Window.path_congr (hwidth : canvas.width = canvas'.width)
    (hheight : canvas.height = canvas'.height) : w.path canvas points = w.path canvas' points := by
  unfold Window.path Window.cell
  rw [hwidth, hheight]

theorem Canvas.drawCurves?_append (w : Window α) (canvas : Canvas) (curves : List (List (α × α)))
    (points : List (α × α)) :
    canvas.drawCurves? w (curves ++ [points]) =
      (canvas.drawCurves? w curves).bind fun canvas =>
        canvas.drawCells? (curveMark curves.length) (w.path canvas points) := by
  unfold Canvas.drawCurves?
  rw [List.zipIdx_append, List.foldlM_append]
  simp [Canvas.drawCurve?, Window.path, bind]

theorem Canvas.drawCurves?_shows {width height : Nat}
    (h : (Canvas.blank width height).drawCurves? w curves = some canvas) :
    canvas.width = width ∧ canvas.height = height ∧
    ∀ cell, canvas.inside cell = true → ∃ mark, canvas.get? cell = some mark ∧
      Shows (curves.map (w.path (Canvas.blank width height))) cell mark := by
  induction curves using List.reverseRecOn generalizing canvas with
  | nil =>
    cases h
    refine ⟨rfl, rfl, fun cell hcell => ⟨' ', Canvas.get?_blank hcell, .blank fun i hi => ?_⟩⟩
    exact absurd hi.lt (Nat.not_lt_zero i)
  | append_singleton curves points ih =>
    rw [Canvas.drawCurves?_append, Option.bind_eq_some_iff] at h
    obtain ⟨canvas₁, hcurves, hdraw⟩ := h
    obtain ⟨hwidth, hheight, hshows⟩ := ih hcurves
    obtain ⟨hwidth', hheight'⟩ := Canvas.size_drawCells? hdraw
    have hpath : w.path canvas₁ points = w.path (Canvas.blank width height) points :=
      Window.path_congr hwidth hheight
    refine ⟨hwidth'.trans hwidth, hheight'.trans hheight, fun cell hcell => ?_⟩
    have hinside : canvas₁.inside cell = true := by
      rw [Canvas.inside_iff] at hcell ⊢
      omega
    obtain ⟨mark, hmark, hshow⟩ := hshows cell hinside
    have hget := Canvas.get?_drawCells? hdraw cell
    have happend := hshow.append (w.path (Canvas.blank width height) points)
    rw [hmark, hpath] at hget
    rw [List.map_append, List.map_singleton]
    refine ⟨_, ?_, happend⟩
    rw [hget, List.length_map]
    simp only [Option.some_inj]
    split_ifs <;> rfl

theorem Canvas.isSome_drawCurves?_iff {width height : Nat} :
    ((Canvas.blank width height).drawCurves? w curves).isSome = true ↔
      ∀ path ∈ curves.map (w.path (Canvas.blank width height)), ∀ first ∈ path.head?,
        (Canvas.blank width height).inside first = true := by
  induction curves using List.reverseRecOn with
  | nil => simp [Canvas.drawCurves?]
  | append_singleton curves points ih =>
    rw [Canvas.drawCurves?_append, List.map_append, List.forall_mem_append, ← ih,
      List.map_singleton, List.forall_mem_singleton]
    cases hcurves : (Canvas.blank width height).drawCurves? w curves with
    | none => simp
    | some canvas =>
      obtain ⟨hwidth, hheight, -⟩ := Canvas.drawCurves?_shows hcurves
      have hpath : w.path canvas points = w.path (Canvas.blank width height) points :=
        Window.path_congr hwidth hheight
      have hinside : ∀ cell, canvas.inside cell = (Canvas.blank width height).inside cell := by
        intro cell
        rw [Canvas.inside, Canvas.inside, hwidth, hheight]
        rfl
      rw [Option.bind_some, hpath]
      rcases w.path (Canvas.blank width height) points with _ | ⟨first, rest⟩
      · simp [Canvas.drawCells?]
      · simp [Canvas.drawCells?, Canvas.put?, hinside]

theorem Shows.append_of_not_start {paths later : List (List Cell)} {cell : Cell} {mark : Char}
    (h : Shows paths cell mark) (hmark : mark ≠ ' ')
    (hlater : ∀ path ∈ later, path.head? ≠ some cell) : Shows (paths ++ later) cell mark := by
  induction later generalizing paths with
  | nil => rwa [List.append_nil]
  | cons path later ih =>
    obtain ⟨hpath, hrest⟩ := List.forall_mem_cons.1 hlater
    have hnext := h.append path
    rw [if_neg hpath, if_neg fun hblank => hmark hblank.2] at hnext
    have hall := ih hnext hrest
    rwa [List.append_assoc, List.singleton_append] at hall

/-- **What a plot shows.** A plot without points is drawn if the first sample of every curve is on the
canvas. Each of its cells then has the mark of the last curve that starts there or, if none does, of
the first curve that covers it. So a cell with a mark shows the first curve that covers it, unless a
later one starts there, and keeps its mark when more curves are drawn, unless one of them starts
there. -/
theorem plotCanvas?_shows (w : Window α) (curves : List (List (α × α))) (width height : Nat) :
    ((plotCanvas? w curves [] width height).isSome = true ↔
      ∀ path ∈ plotPaths w curves width height, ∀ first ∈ path.head?,
        (Canvas.blank (max width 10) (max height 5)).inside first = true) ∧
    ∀ canvas, plotCanvas? w curves [] width height = some canvas →
      (∀ cell mark, canvas.get? cell = some mark ↔
        canvas.inside cell = true ∧ Shows (plotPaths w curves width height) cell mark) ∧
      (∀ cell mark, canvas.get? cell = some mark → mark ≠ ' ' →
        (∀ i k, StartsAt (plotPaths w curves width height) cell i →
          Covers (plotPaths w curves width height) cell k → i ≤ k) →
        ∃ k, FirstCovers (plotPaths w curves width height) cell k ∧ mark = curveMark k) ∧
      ∀ later canvas', plotCanvas? w (curves ++ later) [] width height = some canvas' →
        ∀ cell mark, canvas.get? cell = some mark → mark ≠ ' ' →
        (∀ path ∈ plotPaths w later width height, path.head? ≠ some cell) →
        canvas'.get? cell = some mark := by
  have hplot : ∀ curves : List (List (α × α)), plotCanvas? w curves [] width height =
      (Canvas.blank (max width 10) (max height 5)).drawCurves? w curves := by
    intro curves
    simp [plotCanvas?, Canvas.drawPoints?]
  have hshows : ∀ (curves : List (List (α × α))) canvas,
      plotCanvas? w curves [] width height = some canvas → ∀ cell mark,
      canvas.get? cell = some mark ↔
        canvas.inside cell = true ∧ Shows (plotPaths w curves width height) cell mark := by
    intro curves canvas h cell mark
    rw [hplot] at h
    obtain ⟨-, -, hcells⟩ := Canvas.drawCurves?_shows h
    cases hinside : canvas.inside cell with
    | false => simp [Canvas.get?_of_not_inside hinside]
    | true =>
      obtain ⟨mark', hmark', hshow⟩ := hcells cell hinside
      rw [hmark', Option.some_inj]
      constructor
      · rintro rfl
        exact ⟨rfl, hshow⟩
      · rintro ⟨-, hshow'⟩
        exact hshow.unique hshow'
  refine ⟨by rw [hplot, Canvas.isSome_drawCurves?_iff]; rfl, fun canvas h => ⟨hshows curves canvas h,
    fun cell mark hget hmark hstart => ?_, fun later canvas' h' cell mark hget hmark hlater => ?_⟩⟩
  · obtain ⟨-, hshow⟩ := (hshows curves canvas h cell mark).1 hget
    exact hshow.firstCovers hmark hstart
  · obtain ⟨hinside, hshow⟩ := (hshows curves canvas h cell mark).1 hget
    have hsame : canvas'.inside cell = canvas.inside cell := by
      rw [hplot] at h h'
      obtain ⟨hwidth, hheight, -⟩ := Canvas.drawCurves?_shows h
      obtain ⟨hwidth', hheight', -⟩ := Canvas.drawCurves?_shows h'
      rw [Canvas.inside, Canvas.inside, hwidth, hheight, hwidth', hheight']
    refine (hshows (curves ++ later) canvas' h' cell mark).2 ⟨hsame.trans hinside, ?_⟩
    rw [plotPaths, List.map_append]
    exact hshow.append_of_not_start hmark hlater

end Plots

/-- Two curves that cross: the first one stays visible where they meet, and the second one is drawn
around it. -/
theorem plotCanvas?_shows_crossing :
    let curves : List Curve := [⟨"a", [0.0, 1.0], [0.0, 1.0]⟩, ⟨"b", [0.0, 1.0], [1.0, 0.0]⟩]
    let samples := curves.map fun curve => curve.times.zip curve.values
    let w := plotWindow curves []
    ∃ canvas canvas',
      plotCanvas? w (samples.take 1) [] 10 5 = some canvas ∧
      plotCanvas? w samples [] 10 5 = some canvas' ∧
      canvas.get? ⟨5, 2⟩ = some '-' ∧ canvas'.get? ⟨5, 2⟩ = some '-' ∧
      ∃ k, FirstCovers (plotPaths w samples 10 5) ⟨5, 2⟩ k ∧ '-' = curveMark k := by
  intro curves samples w
  have hone : (plotCanvas? w (samples.take 1) [] 10 5).bind (·.get? ⟨5, 2⟩) = some '-' := by
    decide +kernel
  have htwo : (plotCanvas? w samples [] 10 5).isSome = true := by decide +kernel
  have hstarts : ∀ path ∈ plotPaths w samples 10 5, path.head? ≠ some ⟨5, 2⟩ := by decide +kernel
  obtain ⟨canvas, hcanvas, hmark⟩ := Option.bind_eq_some_iff.1 hone
  obtain ⟨canvas', hcanvas'⟩ := Option.isSome_iff_exists.1 htwo
  have hstays : canvas'.get? ⟨5, 2⟩ = some '-' := by
    refine ((plotCanvas?_shows w (samples.take 1) 10 5).2 canvas hcanvas).2.2 (samples.drop 1)
      canvas' hcanvas' ⟨5, 2⟩ '-' hmark (by decide) fun path hpath => hstarts path ?_
    exact List.mem_of_mem_drop (i := 1) hpath
  refine ⟨canvas, canvas', hcanvas, hcanvas', hmark, hstays, ?_⟩
  refine ((plotCanvas?_shows w samples 10 5).2 canvas' hcanvas').2.1 ⟨5, 2⟩ '-' hstays (by decide)
    fun i k hstart => ?_
  obtain ⟨path, hpath, hhead⟩ := hstart
  exact absurd hhead (hstarts path (List.mem_of_getElem? hpath))

/-- Two curves that start at the same cell: the first one covers it, but the second one shows. -/
theorem not_first_curve_visible :
    let curves : List Curve := [⟨"a", [0.0, 1.0], [1.0, 0.0]⟩, ⟨"b", [0.0, 1.0], [1.0, 1.0]⟩]
    let samples := curves.map fun curve => curve.times.zip curve.values
    let w := plotWindow curves []
    ∃ canvas, plotCanvas? w samples [] 10 5 = some canvas ∧ canvas.get? ⟨0, 0⟩ = some '*' ∧
      FirstCovers (plotPaths w samples 10 5) ⟨0, 0⟩ 0 ∧ curveMark 0 = '-' := by
  intro curves samples w
  have hmark : (plotCanvas? w samples [] 10 5).bind (·.get? ⟨0, 0⟩) = some '*' := by
    decide +kernel
  have hpath : (plotPaths w samples 10 5)[0]? = some [⟨0, 0⟩, ⟨9, 4⟩] := by decide +kernel
  obtain ⟨canvas, hcanvas, hget⟩ := Option.bind_eq_some_iff.1 hmark
  have hcovers : ⟨0, 0⟩ ∈ pathCells [⟨0, 0⟩, ⟨9, 4⟩] := mem_pathCells_of_mem (by simp)
  exact ⟨canvas, hcanvas, hget, ⟨⟨_, hpath, hcovers⟩, fun i _ => Nat.zero_le i⟩, rfl⟩

end MuonSpin
