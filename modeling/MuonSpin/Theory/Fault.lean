import MuonSpin.Kernel.Basic
import MuonSpin.UserFunction.Parts

/-!
# Faults of a theory block

* `Fault`: why a line cannot become part of a theory;
* `BuildError`: a fault with the number of its line;
* `Fault.message`, `BuildError.message`: their wording.
-/

namespace MuonSpin

/-- Why an entry of the run map does not name a parameter. -/
inductive MapFault where
  | indexZero
  | pastEnd (entries : Nat)
  | noParameter (entry : Int) (paramCount : Nat)
  deriving DecidableEq

def MapFault.message : MapFault → String
  | indexZero => "map indices start at 1"
  | pastEnd entries => "the run map has " ++ toString entries ++ " entries"
  | noParameter entry paramCount =>
    "entry " ++ toString entry ++ " is not a parameter number (1..=" ++ toString paramCount ++ ")"

/-- Why a theory block does not build. -/
inductive Fault where
  | undefinedKernel (name : String)
  | wrongCount (kernel : Kernel) (found : Nat)
  | unrecognizedToken (token : String)
  | parameterOutOfRange (number paramCount : Nat)
  | undefinedFunction (number : Nat)
  | mapOutOfRange (index : Nat) (reason : MapFault)
  | userFunctionNotFound (module type : String)
  | userFunctionNotBound (type : String) (cause : UserFunctionError)
  | misplacedSeparator
  | emptyTheory
  deriving DecidableEq

def Fault.message : Fault → String
  | undefinedKernel name => "theory function '" ++ name ++ "' is undefined"
  | wrongCount kernel found =>
    "'" ++ kernel.name ++ "' expects " ++ kernel.arity.describe ++ " parameter(s), found "
      ++ toString found
  | unrecognizedToken token =>
    "token '" ++ token ++ "' is not a parameter number, fun<N> or map<N>"
  | parameterOutOfRange number paramCount =>
    "parameter number " ++ toString number ++ " out of range (1..=" ++ toString paramCount ++ ")"
  | undefinedFunction number =>
    "fun" ++ toString number ++ " is not defined in the FUNCTIONS block"
  | mapOutOfRange index reason =>
    "map" ++ toString index ++ " cannot be resolved (" ++ reason.message ++ ")"
  | userFunctionNotFound module type =>
    "user function '" ++ type ++ "' not found (module '" ++ module ++ "')"
  | userFunctionNotBound type cause =>
    "user function '" ++ type ++ "' could not be bound: " ++ cause.message
  | misplacedSeparator => "misplaced '+' term separator"
  | emptyTheory => "theory block is empty"

/-- A fault with the number of its line. -/
structure BuildError where
  line : Nat
  fault : Fault
  deriving DecidableEq

def BuildError.message (e : BuildError) : String :=
  "theory block line " ++ toString e.line ++ ": " ++ e.fault.message

end MuonSpin
