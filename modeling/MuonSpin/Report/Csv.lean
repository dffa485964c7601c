import MuonSpin.Decimal.Basic
import MuonSpin.Model.Basic

/-!
# Tables of comma-separated values

One row for each run and time. Names are written as they are.

* `csvRow`: fields with commas between them and a line feed behind them;
* `curvesCsv`, `samplesCsv`: evaluated curves, and simulated measurements of them.
-/

namespace MuonSpin

/-- A row of fields. -/
def csvRow (fields : List String) : String := String.intercalate "," fields ++ "\n"

/-- A text for a time. -/
def timeField (t : Float) : String := fixedText 6 t

/-- A text for a value. -/
def valueField (v : Float) : String := fixedText 10 v

/-- The rows of a curve, one for each time that has a value. -/
def Curve.rows (curve : Curve) : List (List String) :=
  (curve.times.zip curve.values).map fun (t, v) => [curve.run, timeField t, valueField v]

def curvesCsv (curves : List Curve) : String :=
  csvRow ["run", "t_us", "value"] ++ String.join ((curves.flatMap Curve.rows).map csvRow)

/-- A simulated measurement. -/
structure Sample where
  t : Float
  model : Float
  observed : Float
  sigma : Float

/-- The simulated measurements of a run. -/
structure SampledRun where
  run : String
  samples : List Sample

/-- The rows of a run's measurements. -/
def SampledRun.rows (run : SampledRun) : List (List String) :=
  run.samples.map fun p =>
    [run.run, timeField p.t, valueField p.model, valueField p.observed, valueField p.sigma]

def samplesCsv (runs : List SampledRun) : String :=
  csvRow ["run", "t_us", "model", "observed", "sigma"]
    ++ String.join ((runs.flatMap SampledRun.rows).map csvRow)

end MuonSpin
