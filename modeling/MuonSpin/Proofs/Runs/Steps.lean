import Mathlib.Tactic.SplitIfs
import MuonSpin.Model.Evaluation
import MuonSpin.Proofs.Block.Factors
import MuonSpin.Proofs.Runs.Task

/-!
# Runs in atomic steps

The runs of a model share a session. Looking up a type, asking for the loader, attaching a part,
evaluating a user function and each change that a module makes are steps of a run; **a load is not one
step**, since a module makes its types known one after the other. All that a run does besides concerns
no one else.

* `Loader.loadTask`: a load in steps;
* `Session.bindTask`, `Progress.stepTask`, `Progress.stepsTask`: reading a block in steps;
* `Theory.evaluateIntoTask`, `Theory.evaluateAllTask`: evaluating it;
* **`Run.run_task`**: a run in steps that is not disturbed is a run.
-/

namespace MuonSpin

/-! ## User functions -/

namespace Session

def lookupTask (type : String) : Task Session (Option UserInstance) :=
  .atomic fun session => (session.factories.create? type, session)

def changeTask (change : Factories → Factories) : Task Session Unit :=
  .atomic fun session => ((), { session with factories := change session.factories })

/-- Changes of the known types, one after the other. -/
def changesTask : List (Factories → Factories) → Task Session Unit
  | [] => pure ()
  | change :: changes => do
    changeTask change
    changesTask changes

theorem run_changesTask (changes : List (Factories → Factories)) (session : Session) :
    (changesTask changes).run session =
      ((), { session with factories := ModuleInit.run ⟨changes⟩ session.factories }) := by
  induction changes generalizing session with
  | nil => rfl
  | cons change changes ih =>
    simp only [changesTask, changeTask, Task.run_bind, Task.run_atomic, ih]
    rfl

end Session

/-- Loads a module, if one of the tables knows it. -/
def Loader.loadTask (module : String) : Loader → Task Session Bool
  | static modules =>
    match modules.known.lookup module with
    | some init => do
      Session.changesTask init.changes
      pure true
    | none => pure false
  | chain primary fallback => do
    match ← primary.loadTask module with
    | true => pure true
    | false => fallback.loadTask module

theorem Loader.run_loadTask (loader : Loader) (module : String) (session : Session) :
    (loader.loadTask module).run session =
      match loader.load module session.factories with
      | .error _ => (false, session)
      | .ok factories => (true, { session with factories }) := by
  induction loader generalizing session with
  | static modules =>
    rw [loadTask, load]
    cases modules.known.lookup module with
    | none => rfl
    | some init => simp only [Task.run_bind, Session.run_changesTask, Task.run_pure]
  | chain primary fallback ihprimary ihfallback =>
    simp only [loadTask, load, Task.run_bind, ihprimary]
    cases primary.load module session.factories with
    | error e => exact ihfallback session
    | ok factories => rfl

namespace Session

/-- Loads a module with the loader of the session. -/
def loadTask (module : String) : Task Session Bool := do
  let loader ← Task.atomic fun session => (session.loader, session)
  loader.loadTask module

/-- An instance of a type that was not known, from its module. -/
def loadedTask (module type : String) : Task Session (Except Fault UserInstance) := do
  match ← loadTask module with
  | false => pure (.error (.userFunctionNotFound module type))
  | true =>
    match ← lookupTask type with
    | some f => pure (.ok f)
    | none => pure (.error (.userFunctionNotFound module type))

def createTask (module type : String) : Task Session (Except Fault UserInstance) := do
  match ← lookupTask type with
  | some f => pure (.ok f)
  | none => loadedTask module type

def attachTask (type : String) (index : Nat) (f : UserInstance) :
    Task Session (Except Fault UserInstance) :=
  .atomic fun session => session.attachPart type index f

def bindTask (module type : String) (index : Nat) : Task Session (Except Fault UserInstance) := do
  match ← createTask module type with
  | .error e => pure (.error e)
  | .ok f => attachTask type index f

theorem run_createTask (module type : String) (session : Session) :
    (createTask module type).run session = session.createFunction module type := by
  simp only [createTask, lookupTask, Task.run_bind, Task.run_atomic, createFunction]
  cases session.factories.create? type with
  | none =>
    simp only [loadedTask, loadTask, lookupTask, Task.run_bind, Task.run_atomic,
      Loader.run_loadTask]
    cases session.loader.load module session.factories with
    | error e =>
      rfl
    | ok factories =>
      simp only [Task.run_bind, Task.run_atomic]
      rcases factories.create? type with _ | f <;> rfl
  | some f =>
    rfl

theorem run_bindTask (module type : String) (index : Nat) (session : Session) :
    (bindTask module type index).run session = session.bindFunction module type index := by
  simp only [bindTask, Task.run_bind, run_createTask, bindFunction]
  rcases session.createFunction module type with ⟨_ | f, session'⟩ <;> rfl

end Session

/-! ## Lines -/

/-- The module and the type that words ask for, and the words of the parameters. -/
def userRequest? (words : List String) : Option (String × String × List String) :=
  match Kernel.search (words.headD ""), words.tail with
  | some .user, module :: type :: params => some (module, type, params)
  | _, _ => none

/-- The module and the type that a line of a block asks for, and the words of its parameters. -/
def TheoryLine.request? (line : TheoryLine) : Option (String × String × List String) :=
  if line.content.isEmpty then none
  else if line.isSeparator then none
  else userRequest? line.tokens

/-- The module that a line asks. -/
def TheoryLine.module? (line : TheoryLine) : Option String := line.request?.map (·.1)

/-- The type that a line asks for. -/
def TheoryLine.type? (line : TheoryLine) : Option String := line.request?.map (·.2.1)

/-- The factor of a line with an engine. -/
def BuildContext.factorOf (ctx : BuildContext) (line : Nat) (params : List String)
    (engine : Engine) : Except Fault Factor :=
  match params.mapM ctx.readToken with
  | .error e => .error e
  | .ok references => .ok ⟨line, references, engine⟩

namespace Session

variable {ctx : BuildContext} {count line : Nat} {words : List String}

theorem readFactor_of_no_request (h : userRequest? words = none) (session session' : Session) :
    session.readFactor ctx count line words =
      ((session'.readFactor ctx count line words).1, session,
        (session'.readFactor ctx count line words).2.2) := by
  unfold readFactor
  cases hk : Kernel.search (words.headD "") with
  | none =>
    simp only [hk]
  | some kernel =>
    cases kernel with
    | closed form | static family | dynamic family =>
      simp only [hk, readEngine]
      split_ifs
      · simp only
        rcases words.tail.mapM ctx.readToken with e | references <;> rfl
      · rfl
    | user =>
      rcases hw : words.tail with _ | ⟨module, _ | ⟨type, params⟩⟩
      · simp only [hk, readEngine]
      · simp only [hk, readEngine]
      · simp only [userRequest?, hk, hw] at h
        cases h

theorem readFactor_of_request {module type : String} {params : List String}
    (h : userRequest? words = some (module, type, params)) (session : Session) :
    session.readFactor ctx count line words =
      ((session.bindFunction module type count).1.bind fun f =>
          ctx.factorOf line params (.user f),
        (session.bindFunction module type count).2, count + 1) := by
  obtain ⟨hk, hw⟩ : Kernel.search (words.headD "") = some .user ∧
      words.tail = module :: type :: params := by
    unfold userRequest? at h
    split at h
    · rename_i hk hw
      cases h
      exact ⟨hk, hw⟩
    · cases h
  unfold readFactor
  simp only [hk, hw, readEngine]
  rcases session.bindFunction module type count with ⟨_ | f, session'⟩
  · rfl
  · simp only [Except.bind, BuildContext.factorOf]
    rcases params.mapM ctx.readToken with e | references <;> rfl

theorem request_of_readFactor {session session' : Session} {count' : Nat} {factor : Factor}
    {f : UserInstance}
    (h : session.readFactor ctx count line words = (.ok factor, session', count'))
    (hf : factor.engine = .user f) :
    ∃ module type params, userRequest? words = some (module, type, params) ∧
      session.bindFunction module type count = (.ok f, session') := by
  obtain ⟨kernel, params, hkernel, hread, -, -⟩ := readFactor_ok h
  obtain ⟨hkind, -⟩ := kernel_of_readEngine hread
  rw [hf] at hkind hread
  subst hkind
  rcases hw : words.tail with _ | ⟨module, _ | ⟨type, rest⟩⟩
  · rw [hw] at hread
    cases hread
  · rw [hw] at hread
    cases hread
  · have hsearch : Kernel.search (words.headD "") = some .user := hkernel
    refine ⟨module, type, rest, by simp only [userRequest?, hsearch, hw], ?_⟩
    rw [hw] at hread
    rcases hbind : session.bindFunction module type count with ⟨_ | g, s⟩
    · simp [readEngine, Engine.kernel, hbind] at hread
    · simp only [readEngine, Engine.kernel, hbind] at hread
      cases hread
      rfl

/-- The factor of a line, and the number of user functions afterwards. -/
def factorTask (ctx : BuildContext) (count line : Nat) (words : List String) :
    Task Session (Except Fault Factor × Nat) :=
  match userRequest? words with
  | some (module, type, params) => do
    let f ← bindTask module type count
    pure (f.bind fun f => ctx.factorOf line params (.user f), count + 1)
  | none => pure ((standard.readFactor ctx count line words).1,
      (standard.readFactor ctx count line words).2.2)

theorem run_factorTask (ctx : BuildContext) (count line : Nat) (words : List String)
    (session : Session) :
    (factorTask ctx count line words).run session =
      (((session.readFactor ctx count line words).1,
        (session.readFactor ctx count line words).2.2),
        (session.readFactor ctx count line words).2.1) := by
  unfold factorTask
  split
  · rename_i module type params h
    simp only [Task.run_bind, run_bindTask, Task.run_pure, readFactor_of_request h]
  · rename_i h
    rw [readFactor_of_no_request h session standard]
    rfl

end Session

/-! ## Blocks -/

/-- How far a block has been read, apart from the session. -/
structure Progress where
  userCount : Nat
  terms : List (List Factor)
  term : List Factor
  lastSeparator : Option Nat

namespace Progress

/-- At the beginning of a block. -/
def start : Progress := ⟨0, [], [], none⟩

/-- The reading in a session. -/
def inSession (progress : Progress) (session : Session) : Reading :=
  ⟨session, progress.userCount, progress.terms, progress.term, progress.lastSeparator⟩

/-- The progress of a reading. -/
def ofReading (reading : Reading) : Progress :=
  ⟨reading.userCount, reading.terms, reading.term, reading.lastSeparator⟩

/-- The progress behind a line that asked for a factor. -/
def addResult (progress : Progress) (line : Nat) (factor : Except Fault Factor) (count : Nat) :
    Option BuildError × Progress :=
  match factor with
  | .error e => (some ⟨line, e⟩, { progress with userCount := count })
  | .ok factor => (none, { progress with userCount := count, term := progress.term ++ [factor] })

/-- Reads a line. -/
def stepTask (ctx : BuildContext) (progress : Progress) (line : TheoryLine) :
    Task Session (Option BuildError × Progress) :=
  if line.content.isEmpty then pure (none, progress)
  else if line.isSeparator then
    if progress.term.isEmpty then pure (some ⟨line.number, .misplacedSeparator⟩, progress)
    else pure (none, { progress with
      terms := progress.terms ++ [progress.term], term := [], lastSeparator := some line.number })
  else do
    let (factor, count) ← Session.factorTask ctx progress.userCount line.number line.tokens
    pure (progress.addResult line.number factor count)

/-- Reads lines until one has a fault. -/
def stepsTask (ctx : BuildContext) (progress : Progress) :
    List TheoryLine → Task Session (Option BuildError × Progress)
  | [] => pure (none, progress)
  | line :: rest => do
    match ← progress.stepTask ctx line with
    | (some e, progress) => pure (some e, progress)
    | (none, progress) => progress.stepsTask ctx rest

variable (ctx : BuildContext)

theorem run_stepTask (progress : Progress) (line : TheoryLine) (session : Session) :
    (progress.stepTask ctx line).run session =
      ((((progress.inSession session).step ctx line).1,
        ofReading ((progress.inSession session).step ctx line).2),
        ((progress.inSession session).step ctx line).2.session) := by
  rw [inSession, stepTask, Reading.step]
  by_cases hc : line.content.isEmpty = true
  · simp only [if_pos hc]
    rfl
  by_cases hs : line.isSeparator = true
  · simp only [if_neg hc, if_pos hs]
    by_cases ht : progress.term.isEmpty = true
    · simp only [if_pos ht]
      rfl
    · simp only [if_neg ht]
      rfl
  · simp only [if_neg hc, if_neg hs, Task.run_bind, Session.run_factorTask, Task.run_pure]
    rcases session.readFactor ctx progress.userCount line.number line.tokens with
      ⟨_ | factor, session', count⟩ <;> rfl

theorem run_stepsTask (progress : Progress) (lines : List TheoryLine) (session : Session) :
    (progress.stepsTask ctx lines).run session =
      ((((progress.inSession session).steps ctx lines).1,
        ofReading ((progress.inSession session).steps ctx lines).2),
        ((progress.inSession session).steps ctx lines).2.session) := by
  induction lines generalizing progress session with
  | nil => rfl
  | cons line rest ih =>
    simp only [stepsTask, Task.run_bind, run_stepTask]
    rw [Reading.steps]
    rcases (progress.inSession session).step ctx line with ⟨_ | e, reading⟩
    · exact ih (ofReading reading) reading.session
    · rfl

/-- Reads further lines, unless there is a fault already. -/
def goOn (ctx : BuildContext) (rest : List TheoryLine) :
    Option BuildError × Progress → Task Session (Option BuildError × Progress)
  | (some e, progress) => pure (some e, progress)
  | (none, progress) => progress.stepsTask ctx rest

theorem stepsTask_append (progress : Progress) (front rest : List TheoryLine) :
    progress.stepsTask ctx (front ++ rest) = progress.stepsTask ctx front >>= goOn ctx rest := by
  induction front generalizing progress with
  | nil => rfl
  | cons line front ih =>
    simp only [List.cons_append, stepsTask, Task.bind_assoc]
    congr 1
    funext r
    rcases r with ⟨_ | e, progress'⟩
    · exact ih progress'
    · rfl

theorem exists_stepsTask_eq_bind {α : Type} {line : TheoryLine} {module type : String}
    {params : List String} (h : line.request? = some (module, type, params)) (progress : Progress)
    (rest : List TheoryLine) (finish : Option BuildError × Progress → Task Session α) :
    ∃ next, progress.stepsTask ctx (line :: rest) >>= finish =
        Session.createTask module type >>= next ∧
      ∀ e, next (.error e) = finish (some ⟨line.number, e⟩,
        { progress with userCount := progress.userCount + 1 }) := by
  unfold TheoryLine.request? at h
  split_ifs at h with hc hs
  rw [stepsTask, stepTask, if_neg hc, if_neg hs, Session.factorTask, h]
  simp only [Session.bindTask, Task.bind_assoc]
  exact ⟨_, rfl, fun e => rfl⟩

theorem exists_stepsTask_eq_pure {lines : List TheoryLine}
    (h : ∀ line ∈ lines, line.request? = none) (progress : Progress) :
    ∃ r, progress.stepsTask ctx lines = pure r := by
  induction lines generalizing progress with
  | nil => exact ⟨_, rfl⟩
  | cons line rest ih =>
    obtain ⟨hline, hrest⟩ := List.forall_mem_cons.1 h
    obtain ⟨r, hr⟩ : ∃ r, progress.stepTask ctx line = pure r := by
      unfold TheoryLine.request? at hline
      unfold stepTask
      split_ifs at hline ⊢
      · exact ⟨_, rfl⟩
      · exact ⟨_, rfl⟩
      · exact ⟨_, rfl⟩
      · unfold Session.factorTask
        rw [hline]
        exact ⟨_, rfl⟩
    rw [stepsTask, hr, Task.pure_bind]
    rcases r with ⟨_ | e, progress'⟩
    · exact ih hrest progress'
    · exact ⟨_, rfl⟩

end Progress

/-- The theory of a block that is read, whose first line has the number `first`. -/
def Progress.theory (progress : Progress) (first : Nat) : Except BuildError Theory :=
  match (progress.inSession .standard).endError first with
  | some e => .error e
  | none => .ok (.ofTerms (progress.inSession .standard).allTerms)

/-! ## Values -/

/-- The value of an engine, of which a user function is evaluated in one step. -/
def Engine.valueTask (engine : Engine) (t : Float) (val : List UInt64) :
    Task Session (Option Float × Engine) :=
  match engine with
  | .user f => .atomic fun session =>
    let (v, parts) := f.evaluate session.parts t (numbers val)
    ((v, .user f), { session with parts })
  | engine =>
    let (v, engine, _) := engine.value t val .empty
    pure (v, engine)

theorem Engine.run_valueTask (engine : Engine) (t : Float) (val : List UInt64)
    (session : Session) :
    (engine.valueTask t val).run session =
      (((engine.value t val session.parts).1, (engine.value t val session.parts).2.1),
        { session with parts := (engine.value t val session.parts).2.2 }) := by
  cases engine with
  | closed form | static k | dynamic k | user f => rfl

def Factor.valueTask (factor : Factor) (point : Point) : Task Session (Option Float × Factor) :=
  match factor.resolve? point with
  | none => pure (none, factor)
  | some val => do
    let (v, engine) ← factor.engine.valueTask point.t val
    pure (v, { factor with engine })

theorem Factor.run_valueTask (factor : Factor) (point : Point) (session : Session) :
    (factor.valueTask point).run session =
      (((factor.value point session.parts).1, (factor.value point session.parts).2.1),
        { session with parts := (factor.value point session.parts).2.2 }) := by
  rw [valueTask, value]
  cases factor.resolve? point with
  | none =>
    rfl
  | some val =>
    simp only [Task.run_bind, Engine.run_valueTask, Task.run_pure]

namespace Theory

def evaluateIntoTask (point : Point) (combine : Float → Float → Float) (x : Float) :
    Theory → Task Session (Option Float × Theory)
  | nil => pure (some x, nil)
  | node factor times plus => do
    match ← factor.valueTask point with
    | (none, factor) => pure (none, node factor times plus)
    | (some v, factor) =>
      match ← evaluateIntoTask point (· * ·) v times with
      | (none, times) => pure (none, node factor times plus)
      | (some v, times) =>
        match ← evaluateIntoTask point (· + ·) v plus with
        | (none, plus) => pure (none, node factor times plus)
        | (some v, plus) => pure (some (combine x v), node factor times plus)

theorem run_evaluateIntoTask (point : Point) (combine : Float → Float → Float) (x : Float)
    (theory : Theory) (session : Session) :
    (theory.evaluateIntoTask point combine x).run session =
      (((theory.evaluateInto point combine x session.parts).1,
        (theory.evaluateInto point combine x session.parts).2.1),
        { session with parts := (theory.evaluateInto point combine x session.parts).2.2 }) := by
  induction theory generalizing combine x session with
  | nil => rfl
  | node factor times plus ihtimes ihplus =>
    simp only [evaluateIntoTask, evaluateInto, Task.run_bind, Factor.run_valueTask]
    rcases factor.value point session.parts with ⟨_ | v, factor', parts⟩
    · rfl
    · simp only [Task.run_bind, ihtimes]
      rcases times.evaluateInto point (· * ·) v parts with ⟨_ | v', times', parts'⟩
      · rfl
      · simp only [Task.run_bind, ihplus]
        rcases plus.evaluateInto point (· + ·) v' parts' with ⟨_ | w, plus', parts''⟩ <;> rfl

/-- The values at several times, one evaluation after the other. -/
def evaluateAllTask (params funcs : List UInt64) (theory : Theory) :
    List Float → Task Session (List (Option Float) × Theory)
  | [] => pure ([], theory)
  | t :: times => do
    let (v, theory) ← theory.evaluateIntoTask ⟨t, params, funcs⟩ (fun _ v => v) 0
    let (values, theory) ← theory.evaluateAllTask params funcs times
    pure (v :: values, theory)

theorem run_evaluateAllTask (params funcs : List UInt64) (theory : Theory) (times : List Float)
    (session : Session) :
    (theory.evaluateAllTask params funcs times).run session =
      (((theory.evaluateAll params funcs session.parts times).1,
        (theory.evaluateAll params funcs session.parts times).2.1),
        { session with parts := (theory.evaluateAll params funcs session.parts times).2.2 }) := by
  induction times generalizing theory session with
  | nil => rfl
  | cons t times ih =>
    simp only [evaluateAllTask, Task.run_bind, Task.run_pure, run_evaluateIntoTask, ih]
    simp only [evaluateAll, List.mapM_cons]
    rfl

end Theory

/-! ## Runs -/

/-- What a run does once its block is read, with a fault or without. -/
def Run.finishTask (model : Model) (times : List Float) (run : Run) :
    Option BuildError × Progress → Task Session (Except Failure RunOutput)
  | (some e, _) => pure (.error (.build e))
  | (none, progress) =>
    match progress.theory ((model.lines.head?.map (·.number)).getD 0) with
    | .error e => pure (.error (.build e))
    | .ok theory => do
      let (values, theory) ←
        theory.evaluateAllTask model.parameterBits model.functionBits times
      match values.mapM id with
      | none => pure (.error .aborted)
      | some values =>
        pure (.ok { curve := ⟨run.name, times, values⟩
                    terms := theory.terms.length
                    factors := theory.terms.flatten.length
                    solves := theory.solves })

/-- Reads the block of a run and evaluates it. -/
def Run.task (model : Model) (times : List Float) (run : Run) :
    Task Session (Except Failure RunOutput) :=
  Progress.start.stepsTask (model.context run) model.lines >>= run.finishTask model times

/-- **A run in steps that is not disturbed** is a run. -/
theorem Run.run_task (model : Model) (times : List Float) (run : Run) (session : Session) :
    (run.task model times).run session = session.evaluateRun model times run := by
  have hstart : Progress.start.inSession session = Reading.start session := rfl
  rw [Run.task, Task.run_bind, Progress.run_stepsTask, hstart, Session.evaluateRun, Session.build]
  rcases (Reading.start session).steps (model.context run) model.lines with ⟨_ | e, reading⟩
  · have hend : ((Progress.ofReading reading).inSession .standard).endError
        ((model.lines.head?.map (·.number)).getD 0) =
        reading.endError ((model.lines.head?.map (·.number)).getD 0) := rfl
    have hterms : ((Progress.ofReading reading).inSession .standard).allTerms = reading.allTerms :=
      rfl
    simp only [Run.finishTask, Progress.theory, hend, hterms]
    cases reading.endError ((model.lines.head?.map (·.number)).getD 0) with
    | some e => rfl
    | none =>
      simp only [Task.run_bind, Theory.run_evaluateAllTask, Session.evaluateTheory]
      rcases (Theory.ofTerms reading.allTerms).evaluateAll model.parameterBits model.functionBits
        reading.session.parts times with ⟨values, theory', parts⟩
      simp only
      cases values.mapM id <;> rfl
  · rfl

end MuonSpin
