import MuonSpin.Decimal.Basic
import MuonSpin.Model.CurveFile
import MuonSpin.Numeric.Scalar
import MuonSpin.Plot.Canvas

/-!
# Plots

Curves as lines of characters on a canvas, with overlaid points.

* `Window`: the section of the plane that the canvas shows, and the cell of a point in it;
* `Window.ofData`: the range of the finite times, and that of the finite values with a margin;
* `Canvas.drawCurve?`, `Canvas.drawPoints?`: **a line paints only blank cells**, the first sample of a
  curve and a point any cell;
* `renderPlot`: the text of a plot, with a legend if there is more than one curve.
-/

namespace MuonSpin

open Elementary

/-- The marks of the curves, in turn. -/
def curveMarks : List Char := ['-', '*', '+', '~', '=']

def curveMark (i : Nat) : Char := curveMarks.getD (i % curveMarks.length) '-'

section Coordinates

variable {α : Type} [Add α] [Sub α] [Mul α] [Neg α] [Div α] [Zero α] [NatCast α] [OfScientific α]
  [LT α] [DecidableLT α] [BEq α] [Elementary α]

/-- A closed interval. -/
structure Interval (α : Type) where
  low : α
  high : α

namespace Interval

/-- The interval from zero to one. -/
@[inline] def unit : Interval α := ⟨0, 1.0⟩

/-- The range of the finite values, widened by a half on both sides if they are all equal. -/
@[specialize] def ofValues? (values : List α) : Option (Interval α) :=
  let range := (values.filter isFinite).foldl
    (fun range v => (⟨smaller range.low v, larger range.high v⟩ : Interval α))
    ⟨infinity, -infinity⟩
  if isFinite range.low && isFinite range.high then
    if range.low < range.high then some range else some ⟨range.low - 0.5, range.high + 0.5⟩
  else none

/-- The interval with a margin of a fraction of its length. -/
@[specialize] def widen (fraction : α) (i : Interval α) : Interval α :=
  let margin := larger (abs (i.high - i.low) * fraction) 1e-12
  ⟨i.low - margin, i.high + margin⟩

/-- The position of a value in the interval, from zero to one. -/
@[inline] def position (i : Interval α) (v : α) : α :=
  between 0 1.0 ((v - i.low) / (i.high - i.low))

end Interval

/-- What a canvas shows. -/
structure Window (α : Type) where
  times : Interval α
  values : Interval α

namespace Window

/-- The window of times and values. -/
@[specialize] def ofData (times values : List α) : Window α :=
  ⟨(Interval.ofValues? times).getD .unit,
    ((Interval.ofValues? values).getD .unit).widen 0.05⟩

/-- The column of a time. -/
@[specialize] def column (w : Window α) (width : Nat) (t : α) : Nat :=
  toIndex (round (w.times.position t * ((width : α) - 1.0)))

/-- The row of a value, large values on top. -/
@[specialize] def row (w : Window α) (height : Nat) (v : α) : Nat :=
  let last := (height : α) - 1.0
  toIndex (round (last - w.values.position v * last))

/-- The cell of a time and a value. -/
@[inline] def cell (w : Window α) (canvas : Canvas) (point : α × α) : Cell :=
  ⟨w.column canvas.width point.1, w.row canvas.height point.2⟩

end Window

@[inline] def isFinitePoint (point : α × α) : Bool := isFinite point.1 && isFinite point.2

namespace Canvas

/-- Draws lines from a cell to the next ones in turn. -/
@[specialize] def drawLines (mark : Char) (canvas : Canvas) (start : Cell) : List Cell → Canvas
  | [] => canvas
  | stop :: rest => drawLines mark (canvas.drawLine mark start stop) stop rest

/-- Draws the curve through some cells: a mark on the first, and lines from each to the next. -/
def drawCells? (mark : Char) (canvas : Canvas) : List Cell → Option Canvas
  | [] => some canvas
  | first :: rest => (canvas.put? first mark).map fun canvas => canvas.drawLines mark first rest

/-- Draws the curve through the finite ones of some points. -/
@[specialize] def drawCurve? (w : Window α) (mark : Char) (canvas : Canvas)
    (points : List (α × α)) : Option Canvas :=
  canvas.drawCells? mark ((points.filter isFinitePoint).map (w.cell canvas))

/-- Draws curves, each with the mark of its number. -/
@[specialize] def drawCurves? (w : Window α) (canvas : Canvas)
    (curves : List (List (α × α))) : Option Canvas :=
  curves.zipIdx.foldlM (fun canvas curve => drawCurve? w (curveMark curve.2) canvas curve.1) canvas

/-- Marks the finite ones of some points. -/
@[specialize] def drawPoints? (w : Window α) (canvas : Canvas) (points : List (α × α)) :
    Option Canvas :=
  (points.filter isFinitePoint).foldlM (fun canvas p => canvas.put? (w.cell canvas p) 'o') canvas

end Canvas

/-- The canvas of curves and points, of the given size or the least one. -/
@[specialize] def plotCanvas? (w : Window α) (curves : List (List (α × α))) (points : List (α × α))
    (width height : Nat) : Option Canvas :=
  ((Canvas.blank (max width 10) (max height 5)).drawCurves? w curves).bind
    (·.drawPoints? w points)

end Coordinates

/-! ## Text -/

/-- The line that tells what a plot shows. -/
def plotHeading (w : Window Float) : String :=
  "Plot: t=[" ++ fixedText 3 w.times.low ++ ", " ++ fixedText 3 w.times.high ++ "] us | P=["
    ++ fixedText 4 w.values.low ++ ", " ++ fixedText 4 w.values.high ++ "]\n"

/-- The names of the curves with their marks. -/
def legend (curves : List Curve) : String :=
  String.join (curves.mapIdx fun i curve =>
    "  " ++ String.singleton (curveMark i) ++ " " ++ curve.run ++ "\n")

/-- The window of curves and points. -/
def plotWindow (curves : List Curve) (points : List (Float × Float)) : Window Float :=
  .ofData (curves.flatMap Curve.times ++ points.map (·.1))
    (curves.flatMap Curve.values ++ points.map (·.2))

/-- A plot of curves and points, or `none` if a point falls outside the canvas. -/
def renderPlot (curves : List Curve) (points : List (Float × Float)) (width height : Nat) :
    Option String :=
  let w := plotWindow curves points
  let samples := curves.map fun curve => curve.times.zip curve.values
  (plotCanvas? w samples points width height).map fun canvas =>
    plotHeading w ++ String.join (canvas.rows.map fun row => String.ofList row ++ "\n")
      ++ if 1 < curves.length then legend curves else ""

/-- A plot of a curve file, under its title. -/
def CurveFile.plot (file : CurveFile) (width height : Nat) : Option String :=
  (renderPlot file.curves [] width height).map fun plot =>
    (if file.title.isEmpty then "" else file.title ++ "\n") ++ plot

end MuonSpin
