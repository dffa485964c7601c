import MuonSpin.Decimal.Reader
import MuonSpin.Theory.Fault
import MuonSpin.Theory.Line

/-!
# Parameter tokens

A parameter of a theory line is a parameter number, `fun` with the number of a derived function, or
`map` with the position of an entry in the run's map, the two words in any letter case.

* `BuildContext`: what the tokens are looked up in;
* `BuildContext.readToken`: the reference of a token, or what is wrong with it.
-/

namespace MuonSpin

/-- What a theory block is built against. -/
structure BuildContext where
  /-- The number of fit parameters. -/
  paramCount : Nat
  /-- The run's parameter numbers, counted from one. -/
  runMap : List Int
  functions : FunctionTable

/-- The number behind a keyword in small letters. -/
def keywordNumber? (keyword token : List Char) : Option Nat :=
  if (token.take keyword.length).map Char.toLower = keyword then
    word? (token.drop keyword.length)
  else none

namespace BuildContext

/-- A parameter by its number; numbers behind the function offset never name one. -/
def readNumber (ctx : BuildContext) (number : Nat) : Except Fault Reference :=
  let fault : Fault := .parameterOutOfRange number ctx.paramCount
  if number = 0 then .error fault
  else match Reference.decode (number - 1) with
    | .parameter index => if index < ctx.paramCount then .ok (.parameter index) else .error fault
    | .function _ => .error fault

theorem readNumber_eq (ctx : BuildContext) (number : Nat) :
    ctx.readNumber number =
      if 1 ≤ number ∧ number - 1 < functionOffset ∧ number - 1 < ctx.paramCount then
        .ok (.parameter (number - 1))
      else .error (.parameterOutOfRange number ctx.paramCount) := by
  unfold readNumber Reference.decode
  by_cases hzero : number = 0
  · simp [hzero]
  · have hone : 1 ≤ number := Nat.one_le_iff_ne_zero.2 hzero
    by_cases hoffset : number - 1 < functionOffset <;> simp [hzero, hone, hoffset]

/-- A derived function by its number. -/
def readFunction (ctx : BuildContext) (number : Nat) : Except Fault Reference :=
  match ctx.functions.indexOf? number with
  | some i => .ok (.function i)
  | none => .error (.undefinedFunction number)

/-- The parameter that an entry of the run map names. -/
def readMap (ctx : BuildContext) (index : Nat) : Except Fault Reference :=
  if index = 0 then .error (.mapOutOfRange index .indexZero)
  else match ctx.runMap[index - 1]? with
    | none => .error (.mapOutOfRange index (.pastEnd ctx.runMap.length))
    | some entry =>
      if 1 ≤ entry ∧ entry ≤ ctx.paramCount then .ok (.parameter (entry.toNat - 1))
      else .error (.mapOutOfRange index (.noParameter entry ctx.paramCount))

/-- The reference a token stands for. -/
def readToken (ctx : BuildContext) (token : String) : Except Fault Reference :=
  let cs := token.toList
  if cs.all Char.isDigit then
    match word? cs with
    | some number => ctx.readNumber number
    | none => .error (.unrecognizedToken token)
  else match keywordNumber? ['f', 'u', 'n'] cs, keywordNumber? ['m', 'a', 'p'] cs with
    | some number, _ => ctx.readFunction number
    | none, some index => ctx.readMap index
    | none, none => .error (.unrecognizedToken token)

end BuildContext

end MuonSpin
