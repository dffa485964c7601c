import MuonSpin.CommandLine.Basic
import MuonSpin.Model.Document
import MuonSpin.Model.Evaluation
import MuonSpin.Plot.Basic
import MuonSpin.Report.Columns
import MuonSpin.Simulation.Basic
import MuonSpin.Theory.Layout

/-!
# Running commands

A command reads at most one file and then acts: it prints, writes files and possibly fails. What it
does is a list of actions, in order; **an action that cannot be done is the last one**.

* `Command.input`: the file a command reads;
* `Command.actions`: what it does with the text of the file.
-/

namespace MuonSpin

/-- Something a command does. -/
inductive Action where
  | print (text : String)
  | write (kind : FileKind) (path text : String)
  | fail (failure : Failure)

/-- The actions of a result, which may be a failure. -/
def actionsOf {β : Type} (result : Except Failure β) (f : β → List Action) : List Action :=
  match result with
  | .ok x => f x
  | .error e => [.fail e]

/-- Prints a text that may be missing, and a line feed. -/
def printLine (text : Option String) : List Action :=
  match text with
  | some text => [.print (text ++ "\n")]
  | none => [.fail .aborted]

/-- The evaluated runs of the model that a text describes. -/
def evaluateText (text : String) : Except Failure (Model × List RunOutput) := do
  let model ← Model.parse text
  let outputs ← (Session.standard.evaluateModel model).1
  pure (model, outputs)

/-- The curve file of an evaluated model. -/
def Model.curveFile (model : Model) (now : String) (curves : List Curve) : CurveFile :=
  { tool := "musrth", generated := now, title := model.title, theory := model.theory
    parameters := model.parameters, curves }

namespace Command

/-- The file a command reads. -/
def input : Command → Option (FileKind × String)
  | eval model .. | simulate model .. | tidy model => some (.model, model)
  | plot curve _ => some (.curve, curve)
  | kernels => none

/-- Prints a summary and plots and writes the curves, as asked for. -/
def evalActions (csv curveFile : Option String) (plotted : Bool) (size : PlotSize)
    (now : String) (model : Model) (outputs : List RunOutput) : List Action :=
  let curves := outputs.map (·.curve)
  .print (runSummary model outputs ++ "\n")
    :: (if plotted then printLine (renderPlot curves [] size.width size.height) else [])
    ++ (csv.map fun path => Action.write .table path (curvesCsv curves)).toList
    ++ (curveFile.map fun path =>
        Action.write .curve path (model.curveFile now curves).text).toList

/-- Writes the simulated measurements, and plots those of the first run. -/
def simulateActions (sigma : Float) (seed : UInt64) (out : String) (plotted : Bool)
    (size : PlotSize) (curves : List Curve) (runs : List SampledRun) : List Action :=
  let total := (runs.flatMap (·.samples)).length
  [.write .table out (samplesCsv runs),
    .print ("Wrote " ++ toString total ++ " points (" ++ toString runs.length ++ " run(s), sigma="
      ++ plainText sigma ++ ", seed=" ++ toString seed ++ ") to " ++ out ++ "\n")]
    ++ match plotted, curves, runs with
      | true, curve :: _, run :: _ =>
        printLine (renderPlot [curve] (run.samples.map fun p => (p.t, p.observed))
          size.width size.height)
      | _, _, _ => []

/-- What a command does; `text` is that of its file, and `now` the time. -/
def actions (command : Command) (text now : String) : List Action :=
  match command with
  | eval _ csv curveFile plotted size =>
    actionsOf (evaluateText text) fun (model, outputs) =>
      evalActions csv curveFile plotted size now model outputs
  | simulate _ sigma seed out plotted size =>
    actionsOf (evaluateText text) fun (_, outputs) =>
      let curves := outputs.map (·.curve)
      actionsOf (MuonSpin.simulate curves sigma seed) (simulateActions sigma seed out plotted size curves)
  | kernels => [.print (kernelTable Kernel.all)]
  | tidy _ => actionsOf (Model.parse text) fun model => [.print (formatBlock (tidyBlock model.lines))]
  | plot _ size => actionsOf (CurveFile.parse text) fun file =>
    printLine (file.plot size.width size.height)

end Command

end MuonSpin
