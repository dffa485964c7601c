import MuonSpin.Kernel.Basic
import MuonSpin.Text.Blank
import MuonSpin.Theory.Line

/-!
# Layout of a theory block

* `TheoryLine.tidy`: a kernel line with the full name of its kernel, its parameters in columns of six
  and a comment that names the parameters, from column thirty-five on. Polynomials and user functions
  have layouts of their own. **Other lines stay as they are:** separators, blank lines, unknown names
  and wrong numbers of parameters;
* `formatBlock`: a block as text.
-/

namespace MuonSpin

/-- Parameters in columns of six. -/
def parameterColumns (params : List String) : String := String.join (params.map (padLeft 6))

/-- The column in which the comment starts. -/
def commentColumn : Nat := 35

/-- The canonical text of a kernel line, or `none` if it has none. -/
def tidyText? (kernel : Kernel) (params : List String) : Option String :=
  match kernel with
  | .closed .polynomial =>
    some ("polynom " ++ parameterColumns params ++ " " ++ kernel.signature.comment)
  | .user => some (String.intercalate " " (kernel.name :: params))
  | _ =>
    if kernel.arity.accepts params.length then
      let comment := kernel.signature.comment
      some (padRightBytes commentColumn (padRight 10 kernel.name ++ parameterColumns params)
        ++ if params.length = kernel.arity.least then comment
          else Signature.shiftComment comment)
    else none

/-- The line in its canonical layout. -/
def TheoryLine.tidy (line : TheoryLine) : TheoryLine :=
  match line.tokens with
  | [] => line
  | name :: params =>
    if name = "+" then line
    else match (Kernel.search name).bind (tidyText? · params) with
      | some text => { line with text }
      | none => line

/-- The block in its canonical layout. -/
def tidyBlock (lines : List TheoryLine) : List TheoryLine := lines.map TheoryLine.tidy

/-- A block under its heading, without blanks at the ends of its lines. -/
def formatBlock (lines : List TheoryLine) : String :=
  "THEORY\n" ++ String.join (lines.map fun line => trimEnd line.text ++ "\n")

end MuonSpin
