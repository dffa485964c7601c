import MuonSpin.Decimal.Shortest
import MuonSpin.Model.Basic
import MuonSpin.Theory.Fault

/-!
# Failures

What can go wrong between a model file and a result, with the exit code and the wording.
-/

namespace MuonSpin

/-- The kinds of files. -/
inductive FileKind where
  | model
  | curve
  | table
  deriving DecidableEq

namespace FileKind

/-- The kind of file in a message about opening or creating it. -/
def name : FileKind → String
  | model => "model"
  | curve => "curve JSON"
  | table => "export CSV"

/-- The kind of document in a message about its content. -/
def document : FileKind → String
  | model => "model JSON"
  | curve => "curve JSON"
  | table => "CSV"

end FileKind

/-- Why a command fails. -/
inductive Failure where
  | cannotOpen (kind : FileKind) (path reason : String)
  | cannotCreate (kind : FileKind) (path reason : String)
  | invalidDocument (kind : FileKind)
  | blankTheory
  /-- A parameter by its number, counted from one. -/
  | parameterNotFinite (number : Nat)
  | invalidGrid (grid : TimeGrid)
  | build (error : BuildError)
  | invalidSigma (sigma : Float)
  /-- A run with different numbers of times and values. -/
  | unevenRun (run : String)
  /-- A curve of a file with different numbers of times and values. -/
  | unevenCurve (run : String) (times values : Nat)
  /-- A computation had to stop at a number that cannot be an index. -/
  | aborted

namespace Failure

def exitCode : Failure → Nat
  | unevenRun _ => 4
  | aborted => 101
  | _ => 2

def message : Failure → String
  | cannotOpen kind path reason =>
    "Failed to open " ++ kind.name ++ " '" ++ path ++ "': " ++ reason
  | cannotCreate kind path reason =>
    "Failed to create " ++ kind.name ++ " '" ++ path ++ "': " ++ reason
  | invalidDocument kind => "Invalid " ++ kind.document
  | blankTheory => "Model has an empty THEORY block."
  | parameterNotFinite number => "Parameter " ++ toString number ++ " is not a finite number."
  | invalidGrid grid =>
    "Invalid time grid: start=" ++ plainText grid.start ++ ", end=" ++ plainText grid.stop
      ++ ", step=" ++ plainText grid.step ++ "."
  | build error => "**ERROR** " ++ error.message
  | invalidSigma sigma => "Noise sigma must be finite and >= 0, got " ++ plainText sigma ++ "."
  | unevenRun run => "Run '" ++ run ++ "' has mismatched time/value lengths."
  | unevenCurve run times values =>
    "Curve '" ++ run ++ "' has " ++ toString times ++ " times but " ++ toString values ++ " values."
  | aborted => "The computation had to stop."

end Failure

end MuonSpin
