import MuonSpin.Kernel.Basic
import MuonSpin.Model.Evaluation
import MuonSpin.Text.Blank

/-!
# Reports in columns

* `kernelTable`: a heading and a row for each kernel, with its names, the number of its parameters,
  whether it is tabulated, and its comment;
* `runSummary`: a model's title, times and theory, and a row for each run with the size of its
  theory, its first value and the range of its finite values;
* `shorten`: a name that does not fit its column ends in a point.
-/

namespace MuonSpin

/-! ## The listing of the kernels -/

/-- A row of the listing. -/
def listingRow (name abbreviation parameters tabulated comment : String) : String :=
  trimEnd (String.intercalate " " [padRight 11 name, padRight 8 abbreviation,
    padRight 12 parameters, padRight 4 tabulated, comment]) ++ "\n"

def dashes (n : Nat) : String := String.ofList (List.replicate n '-')

/-- The row of a kernel. -/
def Kernel.listingRow (kernel : Kernel) : String :=
  let s := kernel.signature
  MuonSpin.listingRow s.name s.abbreviation s.arity.describe
    (if kernel.isTabulated then "yes" else "") s.comment

/-- The listing of some kernels. -/
def kernelTable (kernels : List Kernel) : String :=
  listingRow "name" "abbrev" "parameters" "tab" "comment"
    ++ listingRow (dashes 11) (dashes 8) (dashes 12) (dashes 4) (dashes 7)
    ++ String.join (kernels.map Kernel.listingRow)

/-! ## The summary of an evaluated model -/

/-- The smallest and the largest finite value, or twice an undefined number. -/
def finiteRange (values : List Float) : Float × Float :=
  let undefined : Float := 0.0 / 0.0
  (values.filter Float.isFinite).foldl
    (fun range v => (smaller range.1 v, larger range.2 v)) (undefined, undefined)

/-- A text of at most `width` characters, cut off with a point if it is longer. -/
def shorten (width : Nat) (s : String) : String :=
  if s.length ≤ width then s else String.ofList (s.toList.take (width - 1)) ++ "."

/-- The columns of a row. -/
def summaryRow (run terms factors solves first low high : String) : String :=
  trimEnd (String.intercalate " " [padRight 16 run, padLeft 5 terms, padLeft 7 factors,
    padLeft 6 solves, padLeft 12 first, padLeft 12 low, padLeft 12 high]) ++ "\n"

/-- The row of a run. -/
def RunOutput.summaryRow (output : RunOutput) : String :=
  let (low, high) := finiteRange output.curve.values
  MuonSpin.summaryRow (shorten 16 output.curve.run) (toString output.terms)
    (toString output.factors) (toString output.solves)
    (fixedText 6 (output.curve.values.headD (0.0 / 0.0))) (fixedText 6 low) (fixedText 6 high)

/-- The line about the model's times and the sizes of its vectors. -/
def Model.summaryLine (model : Model) : String :=
  "Time: [" ++ fixedText 3 model.time.start ++ ", " ++ fixedText 3 model.time.stop ++ "] us, step "
    ++ plainText model.time.step ++ " | parameters: " ++ toString model.parameters.length
    ++ " | functions: " ++ toString model.functions.length ++ "\n"

/-- The summary of a model and its evaluated runs. -/
def runSummary (model : Model) (outputs : List RunOutput) : String :=
  let title := if model.title.isEmpty then "" else "Title: " ++ model.title ++ "\n"
  let theory := model.lines.map fun line =>
    padLeft 4 (toString line.number) ++ "  " ++ line.text ++ "\n"
  "=== musrth - theory evaluation ===\n" ++ title ++ model.summaryLine
    ++ "\nTheory:\n" ++ String.join theory
    ++ "\nRuns:\n" ++ summaryRow "run" "terms" "factors" "solves" "P(t0)" "min" "max"
    ++ String.join (outputs.map RunOutput.summaryRow)

end MuonSpin
