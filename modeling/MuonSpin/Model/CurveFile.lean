import MuonSpin.Json.Reader
import MuonSpin.Json.Writer
import MuonSpin.Model.Failure

/-!
# Curve files

A saved evaluation: the theory and the parameters with the evaluated curves.

* `CurveFile.toJson`, `CurveFile.text`: the document of a curve file, and its text;
* `CurveFile.ofJson?`, `CurveFile.parse`: a curve file from its document and from its text; all
  fields have to be given, **and a curve needs as many values as times**.
-/

namespace MuonSpin

/-- A saved evaluation. -/
structure CurveFile where
  tool : String
  /-- The time of the evaluation. -/
  generated : String
  title : String
  theory : List String
  parameters : List Float
  curves : List Curve

def Curve.toJson (curve : Curve) : Json :=
  .record [("run", .ofText curve.run), ("t", .ofList .ofFloat curve.times),
    ("value", .ofList .ofFloat curve.values)]

def Curve.ofJson? (json : Json) : Option Curve := do
  match ← json.fields? ["run", "t", "value"] with
  | [run, t, value] =>
    pure ⟨← Json.required? Json.asText? run, ← Json.required? (Json.asList? Json.asFloat?) t,
      ← Json.required? (Json.asList? Json.asFloat?) value⟩
  | _ => none

/-- The curve has as many values as times. -/
def Curve.isEven (curve : Curve) : Bool := curve.times.length == curve.values.length

namespace CurveFile

def toJson (file : CurveFile) : Json :=
  .record [("tool", .ofText file.tool), ("generated", .ofText file.generated),
    ("title", .ofText file.title), ("theory", .ofList .ofText file.theory),
    ("parameters", .ofList .ofFloat file.parameters),
    ("curves", .ofList Curve.toJson file.curves)]

def text (file : CurveFile) : String := file.toJson.pretty

def ofJson? (json : Json) : Option CurveFile := do
  match ← json.fields? ["tool", "generated", "title", "theory", "parameters", "curves"] with
  | [tool, generated, title, theory, parameters, curves] =>
    pure {
      tool := ← Json.required? Json.asText? tool
      generated := ← Json.required? Json.asText? generated
      title := ← Json.required? Json.asText? title
      theory := ← Json.required? (Json.asList? Json.asText?) theory
      parameters := ← Json.required? (Json.asList? Json.asFloat?) parameters
      curves := ← Json.required? (Json.asList? Curve.ofJson?) curves }
  | _ => none

/-- The first curve with different numbers of times and values is reported. -/
def check (file : CurveFile) : Except Failure Unit :=
  match file.curves.find? fun curve => !curve.isEven with
  | some curve => .error (.unevenCurve curve.run curve.times.length curve.values.length)
  | none => .ok ()

/-- The curve file that a text describes. -/
def parse (text : String) : Except Failure CurveFile :=
  match (Json.parse? text).bind ofJson? with
  | none => .error (.invalidDocument .curve)
  | some file => file.check.map fun _ => file

end CurveFile

end MuonSpin
