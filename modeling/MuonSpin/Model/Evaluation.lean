import MuonSpin.Model.Failure
import MuonSpin.Theory.Session

/-!
# Evaluating a model

Every run gets a theory of its own, built against its map in the session that all runs share, and is
evaluated on the model's times.

* `RunOutput`: the curve of a run with the size of its theory;
* `Session.evaluateRun`, `Session.evaluateModel`: one run, and all runs in their order; **the first
  run that does not build ends the evaluation**.
-/

namespace MuonSpin

/-- The evaluated curve of a run. -/
structure RunOutput where
  curve : Curve
  terms : Nat
  factors : Nat
  /-- The number of tables computed. -/
  solves : Nat

/-- The parameters by their bit patterns. -/
def Model.parameterBits (model : Model) : List UInt64 := model.parameters.map Float.toBits

/-- The values of the derived functions by their bit patterns. -/
def Model.functionBits (model : Model) : List UInt64 := model.functionValues.map Float.toBits

/-- What the theory of a run is built against. -/
def Model.context (model : Model) (run : Run) : BuildContext :=
  ⟨model.parameters.length, run.map, model.functionTable⟩

namespace Session

/-- Evaluates the theory of a run at the given times. -/
def evaluateTheory (session : Session) (model : Model) (run : Run) (theory : Theory)
    (times : List Float) : Except Failure RunOutput × Session :=
  let (values, theory, parts) :=
    theory.evaluateAll model.parameterBits model.functionBits session.parts times
  let session := { session with parts }
  match values.mapM id with
  | none => (.error .aborted, session)
  | some values =>
    (.ok { curve := ⟨run.name, times, values⟩
           terms := theory.terms.length
           factors := theory.terms.flatten.length
           solves := theory.solves }, session)

/-- Builds and evaluates a run. -/
def evaluateRun (session : Session) (model : Model) (times : List Float) (run : Run) :
    Except Failure RunOutput × Session :=
  match session.build (model.context run) model.lines with
  | (.error e, session) => (.error (.build e), session)
  | (.ok theory, session) => session.evaluateTheory model run theory times

/-- Evaluates runs until one fails. -/
def evaluateRuns (session : Session) (model : Model) (times : List Float) :
    List Run → Except Failure (List RunOutput) × Session
  | [] => (.ok [], session)
  | run :: rest =>
    match session.evaluateRun model times run with
    | (.error e, session) => (.error e, session)
    | (.ok output, session) =>
      match session.evaluateRuns model times rest with
      | (.error e, session) => (.error e, session)
      | (.ok outputs, session) => (.ok (output :: outputs), session)

/-- Evaluates all runs of a model. -/
def evaluateModel (session : Session) (model : Model) :
    Except Failure (List RunOutput) × Session :=
  match model.time.points? with
  | none => (.error .aborted, session)
  | some times => session.evaluateRuns model times model.effectiveRuns

end Session

end MuonSpin
