import MuonSpin.CommandLine.Basic
import MuonSpin.CommandLine.Options
import MuonSpin.CommandLine.Run
import MuonSpin.CommandLine.Usage
import MuonSpin.Decimal.Basic
import MuonSpin.Decimal.Reader
import MuonSpin.Decimal.Shortest
import MuonSpin.Json.Basic
import MuonSpin.Json.Numeral
import MuonSpin.Json.Reader
import MuonSpin.Json.Writer
import MuonSpin.Kernel.Basic
import MuonSpin.Kernel.DynamicField
import MuonSpin.Kernel.Formulas
import MuonSpin.Kernel.StaticField
import MuonSpin.Kernel.Tabulated
import MuonSpin.Main
import MuonSpin.Model.Basic
import MuonSpin.Model.CurveFile
import MuonSpin.Model.Document
import MuonSpin.Model.Evaluation
import MuonSpin.Model.Failure
import MuonSpin.Numeric.SampledTable
import MuonSpin.Numeric.Scalar
import MuonSpin.Numeric.SpecialFunctions
import MuonSpin.Plot.Basic
import MuonSpin.Plot.Canvas
import MuonSpin.Report.Csv
import MuonSpin.Report.Columns
import MuonSpin.Simulation.Basic
import MuonSpin.Text.Blank
import MuonSpin.Theory.Basic
import MuonSpin.Theory.Fault
import MuonSpin.Theory.Layout
import MuonSpin.Theory.Line
import MuonSpin.Theory.Session
import MuonSpin.Theory.Token
import MuonSpin.UserFunction.Basic
import MuonSpin.UserFunction.Builtin
import MuonSpin.UserFunction.Loader
import MuonSpin.UserFunction.Parts
import MuonSpin.Proofs.Block.Factors
import MuonSpin.Proofs.Block.Groups
import MuonSpin.Proofs.Block.FirstFault
import MuonSpin.Proofs.UserFunction.PartCalls
import MuonSpin.Proofs.Session.Binding
import MuonSpin.Proofs.Session.Builtin
import MuonSpin.Proofs.Session.History
import MuonSpin.Proofs.Session.Indices
import MuonSpin.Proofs.Session.Numbers
import MuonSpin.Proofs.Layout.Columns
import MuonSpin.Proofs.Layout.Meaning
import MuonSpin.Proofs.Evaluation.Calls
import MuonSpin.Proofs.Evaluation.Shape
import MuonSpin.Proofs.Evaluation.Halts
import MuonSpin.Proofs.Evaluation.Range
import MuonSpin.Proofs.Evaluation.SumOfProducts
import MuonSpin.Proofs.Runs.Task
import MuonSpin.Proofs.Runs.Steps
import MuonSpin.Proofs.Runs.Shared
import MuonSpin.Proofs.Runs.Settled
import MuonSpin.Proofs.Runs.Independence
import MuonSpin.Proofs.Plot.Stroke
import MuonSpin.Proofs.Plot.Line
import MuonSpin.Proofs.Plot.Visible
import MuonSpin.Proofs.Json.Numerals
import MuonSpin.Proofs.Json.RoundTrip
import MuonSpin.Proofs.Json.Records
import MuonSpin.Proofs.Model.CurveFile
import MuonSpin.Proofs.Block.Buildable
import MuonSpin.Proofs.Report.Csv
import MuonSpin.Proofs.Layout.Rewriting
import MuonSpin.Proofs.Layout.Spelling
import MuonSpin.Proofs.Layout.Variants
import MuonSpin.Proofs.Block.Grammar
import MuonSpin.Proofs.Evaluation.Solves
import MuonSpin.Proofs.Model.Outputs
import MuonSpin.Proofs.UserFunction.SharedTables
import MuonSpin.Proofs.UserFunction.PartStore
import MuonSpin.Proofs.Evaluation.TimeShift
import MuonSpin.Proofs.Evaluation.ZeroField
import MuonSpin.Proofs.Session.Loading
import MuonSpin.Proofs.Numeric.Rounding
import MuonSpin.Proofs.Numeric.NearestWhole
import MuonSpin.Proofs.Plot.Text
import MuonSpin.Proofs.Numeric.Exact
import MuonSpin.Proofs.Numeric.Interpolation
import MuonSpin.Proofs.Kernel.StaticValue
import MuonSpin.Proofs.Kernel.StepCount
import MuonSpin.Proofs.Kernel.Volterra
import MuonSpin.Proofs.Kernel.Divisor
import MuonSpin.Proofs.Kernel.StaticTable
import MuonSpin.Proofs.Numeric.Dawson
import MuonSpin.Proofs.Kernel.Pole
import MuonSpin.Proofs.Kernel.TimeZero
import MuonSpin.Proofs.Kernel.Polynomial
