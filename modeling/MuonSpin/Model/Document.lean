import MuonSpin.Json.Reader
import MuonSpin.Model.Failure
import MuonSpin.Text.Blank

/-!
# Model files

* `Model.ofJson?`: a model from its document, in which only the theory and the parameters have to be
  given;
* `Model.check`: **a model needs a theory that is not blank, finite parameters and a grid with a
  step**, and the first of these that is missing is reported;
* `Model.parse`: a model from the text of its file.
-/

namespace MuonSpin

def FunctionValue.ofJson? (json : Json) : Option FunctionValue := do
  match ← json.fields? ["number", "value"] with
  | [number, value] =>
    pure ⟨← Json.required? Json.asNat? number, ← Json.required? Json.asFloat? value⟩
  | _ => none

def Run.ofJson? (json : Json) : Option Run := do
  match ← json.fields? ["name", "map"] with
  | [name, map] =>
    pure ⟨← Json.required? Json.asText? name, ← Json.optional? (Json.asList? Json.asInt?) [] map⟩
  | _ => none

def TimeGrid.ofJson? (json : Json) : Option TimeGrid := do
  match ← json.fields? ["start", "end", "step"] with
  | [start, stop, step] =>
    pure ⟨← Json.required? Json.asFloat? start, ← Json.required? Json.asFloat? stop,
      ← Json.required? Json.asFloat? step⟩
  | _ => none

namespace Model

def ofJson? (json : Json) : Option Model := do
  match ← json.fields? ["title", "theory", "parameters", "functions", "runs", "time"] with
  | [title, theory, parameters, functions, runs, time] =>
    pure {
      title := ← Json.optional? Json.asText? "" title
      theory := ← Json.required? (Json.asList? Json.asText?) theory
      parameters := ← Json.required? (Json.asList? Json.asFloat?) parameters
      functions := ← Json.optional? (Json.asList? FunctionValue.ofJson?) [] functions
      runs := ← Json.optional? (Json.asList? Run.ofJson?) [] runs
      time := ← Json.optional? TimeGrid.ofJson? .default time }
  | _ => none

/-- What is wrong with a model, before its theory is read. -/
def check (model : Model) : Except Failure Unit :=
  if model.theory.all fun line => line.toList.all isBlank then .error .blankTheory
  else match model.parameters.findIdx? fun p => !p.isFinite with
    | some i => .error (.parameterNotFinite (i + 1))
    | none =>
      if model.time.hasStep && decide (model.time.start ≤ model.time.stop) then .ok ()
      else .error (.invalidGrid model.time)

/-- The model that a text describes. -/
def parse (text : String) : Except Failure Model :=
  match (Json.parse? text).bind ofJson? with
  | none => .error (.invalidDocument .model)
  | some model => model.check.map fun _ => model

end Model

end MuonSpin
