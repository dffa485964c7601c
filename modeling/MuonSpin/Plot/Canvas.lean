/-!
# A canvas of characters

* `Canvas.put?`: a cell gets a mark, whatever was there; `none` outside the canvas;
* `Canvas.paint`: a cell gets a mark if it is on the canvas and blank;
* `lineCells`: the cells of a straight line between two cells, by Bresenham's rule;
* `Canvas.drawLine`: **only blank cells of a line are painted**, so what is drawn stays visible.
-/

namespace MuonSpin

/-- A column and a row, counted from the upper left. -/
structure Cell where
  x : Nat
  y : Nat
  deriving DecidableEq

/-- Rows of characters, all of one width. -/
structure Canvas where
  width : Nat
  height : Nat
  /-- The cells row by row. -/
  cells : Array Char
  size_cells : cells.size = width * height

namespace Canvas

def blank (width height : Nat) : Canvas :=
  ⟨width, height, Array.replicate (width * height) ' ', by simp⟩

def inside (canvas : Canvas) (cell : Cell) : Bool :=
  decide (cell.x < canvas.width) && decide (cell.y < canvas.height)

/-- The place of a cell in the list of all cells. -/
def index (canvas : Canvas) (cell : Cell) : Nat := cell.y * canvas.width + cell.x

/-- The mark of a cell, if it is on the canvas. -/
def get? (canvas : Canvas) (cell : Cell) : Option Char :=
  if canvas.inside cell then canvas.cells[canvas.index cell]? else none

/-- The canvas with a mark at a place in the list of all cells. -/
def set (canvas : Canvas) (i : Nat) (mark : Char) : Canvas :=
  { canvas with
    cells := canvas.cells.setIfInBounds i mark
    size_cells := by simpa using canvas.size_cells }

/-- The canvas with a mark on a cell, which has to be on the canvas. -/
def put? (canvas : Canvas) (cell : Cell) (mark : Char) : Option Canvas :=
  if canvas.inside cell then some (canvas.set (canvas.index cell) mark) else none

/-- The canvas with a mark on a cell that was blank. -/
def paint (mark : Char) (canvas : Canvas) (cell : Cell) : Canvas :=
  if canvas.get? cell = some ' ' then canvas.set (canvas.index cell) mark else canvas

/-- The characters of a row. -/
def row (canvas : Canvas) (y : Nat) : List Char :=
  (canvas.cells.extract (y * canvas.width) (y * canvas.width + canvas.width)).toList

def rows (canvas : Canvas) : List (List Char) := (List.range canvas.height).map canvas.row

end Canvas

/-! ## Lines -/

/-- A point of a line on its way, with the distance from the ideal line. -/
structure Pen where
  x : Int
  y : Int
  err : Int
  deriving DecidableEq

/-- The way from one cell to another. -/
structure Stroke where
  start : Cell
  stop : Cell

namespace Stroke

def dx (s : Stroke) : Int := ((s.stop.x : Int) - s.start.x).natAbs

def dy (s : Stroke) : Int := -((s.stop.y : Int) - s.start.y).natAbs

def stepX (s : Stroke) : Int := if s.start.x < s.stop.x then 1 else -1

def stepY (s : Stroke) : Int := if s.start.y < s.stop.y then 1 else -1

def pen (s : Stroke) : Pen := ⟨s.start.x, s.start.y, s.dx + s.dy⟩

def isAtEnd (s : Stroke) (p : Pen) : Bool := p.x == s.stop.x && p.y == s.stop.y

/-- The next point: a step in each direction in which the distance asks for one. -/
def advance (s : Stroke) (p : Pen) : Pen :=
  let horizontal := s.dy ≤ 2 * p.err
  let vertical := 2 * p.err ≤ s.dx
  { x := if horizontal then p.x + s.stepX else p.x
    y := if vertical then p.y + s.stepY else p.y
    err := p.err + (if horizontal then s.dy else 0) + (if vertical then s.dx else 0) }

/-- The points from `p` on, up to the end of the line. -/
def visit (s : Stroke) : (fuel : Nat) → Pen → List Pen
  | 0, p => [p]
  | fuel + 1, p => if s.isAtEnd p then [p] else p :: visit s fuel (s.advance p)

/-- The points of the line. -/
def pens (s : Stroke) : List Pen := s.visit (s.dx.natAbs + s.dy.natAbs) s.pen

end Stroke

/-- The cell of a point, if it has one. -/
def Pen.cell? (p : Pen) : Option Cell :=
  if 0 ≤ p.x ∧ 0 ≤ p.y then some ⟨p.x.toNat, p.y.toNat⟩ else none

/-- The cells of a line in order. -/
def lineCells (start stop : Cell) : List Cell := (Stroke.mk start stop).pens.filterMap Pen.cell?

/-- Paints the blank cells of a line. -/
def Canvas.drawLine (mark : Char) (canvas : Canvas) (start stop : Cell) : Canvas :=
  (lineCells start stop).foldl (paint mark) canvas

end MuonSpin
