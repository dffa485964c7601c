import MuonSpin.Numeric.Scalar
import MuonSpin.Theory.Line

/-!
# Models

A model is a theory block with the values of its parameters and derived functions, the runs it is
evaluated for, and a grid of times.

* `TimeGrid.points?`: the times of a grid, or `none` if they are too many to be kept;
* `Model.effectiveRuns`: **a model without runs has one** that is called `run`;
* `Curve`: the evaluated times and values of a run.
-/

namespace MuonSpin

/-- The value of a derived function. -/
structure FunctionValue where
  number : Nat
  value : Float

/-- A run with its map, the numbers of its parameters counted from one. -/
structure Run where
  name : String
  map : List Int

/-- Evenly spaced times in microseconds. -/
structure TimeGrid where
  start : Float
  stop : Float
  step : Float

namespace TimeGrid

/-- Ten microseconds in steps of ten nanoseconds. -/
def default : TimeGrid := ⟨0.0, 10.0, 0.01⟩

/-- The step is a positive number. -/
def hasStep (grid : TimeGrid) : Bool := grid.step.isFinite && decide (0.0 < grid.step)

/-- The number of points from which on they can no longer be kept. -/
def tooMany : Nat := 0x1000000000000000

/-- The number of points of a grid with a step, the last one at the end or before it: the index of a
number is its whole part. -/
def count? (grid : TimeGrid) : Option Nat :=
  let last := Elementary.toIndex ((grid.stop - grid.start) / grid.step + 1e-9)
  if last + 1 < tooMany then some (last + 1) else none

/-- The times; only the start if there is no step or the grid ends before it. -/
def points? (grid : TimeGrid) : Option (List Float) :=
  if !grid.hasStep || decide (grid.stop < grid.start) then some [grid.start]
  else grid.count?.map fun n =>
    (List.range n).map fun i => grid.start + i.toFloat * grid.step

end TimeGrid

/-- A model as it is described in a file. -/
structure Model where
  title : String
  theory : List String
  parameters : List Float
  functions : List FunctionValue
  runs : List Run
  time : TimeGrid

namespace Model

/-- The theory block, its lines numbered from one. -/
def lines (model : Model) : List TheoryLine := TheoryLine.numbered 1 model.theory

def functionTable (model : Model) : FunctionTable := ⟨model.functions.map (·.number)⟩

def functionValues (model : Model) : List Float := model.functions.map (·.value)

/-- The runs to evaluate. -/
def effectiveRuns (model : Model) : List Run :=
  if model.runs.isEmpty then [⟨"run", []⟩] else model.runs

end Model

/-- The evaluated times and values of a run. -/
structure Curve where
  run : String
  times : List Float
  values : List Float

end MuonSpin
