import MuonSpin.Theory.Basic
import MuonSpin.Theory.Line
import MuonSpin.Theory.Token
import MuonSpin.UserFunction.Loader

/-!
# Building theories

A session keeps what outlives a single theory: the known types of user functions, the modules that
can be loaded, and the shared parts. A block is read line by line; a line that does not build ends
the reading, **and what the lines before it and the line itself did to the session remains**.

* `Session.bindFunction`: an instance of a user function, whose module is loaded only if its type is
  not known;
* `Session.readFactor`: a factor from the words of its line;
* `Reading.step`: one line, which is skipped, divides terms or adds a factor;
* `Session.build`: a theory from a block.
-/

namespace MuonSpin

/-- What the theories of one model share. -/
structure Session where
  loader : Loader
  factories : Factories
  parts : GlobalParts

namespace Session

/-- A session without types and parts. -/
def start (loader : Loader) : Session := ⟨loader, .empty, .empty⟩

/-- A session that can load the built-in module. -/
def standard : Session := start .standard

/-- A fresh instance of a type; its module is loaded if the type is not known. -/
def createFunction (session : Session) (module type : String) :
    Except Fault UserInstance × Session :=
  match session.factories.create? type with
  | some f => (.ok f, session)
  | none =>
    match session.loader.load module session.factories with
    | .error _ => (.error (.userFunctionNotFound module type), session)
    | .ok factories =>
      let session := { session with factories }
      match factories.create? type with
      | some f => (.ok f, session)
      | none => (.error (.userFunctionNotFound module type), session)

/-- Attaches the shared part of an instance, if its function has one. -/
def attachPart (session : Session) (type : String) (index : Nat) (f : UserInstance) :
    Except Fault UserInstance × Session :=
  if f.function.needsPart then
    match f.bind index session.parts with
    | (.ok f, parts) => (.ok f, { session with parts })
    | (.error e, parts) => (.error (.userFunctionNotBound type e), { session with parts })
  else (.ok f, session)

/-- An instance of a user function, number `index` of its block. -/
def bindFunction (session : Session) (module type : String) (index : Nat) :
    Except Fault UserInstance × Session :=
  match session.createFunction module type with
  | (.error e, session) => (.error e, session)
  | (.ok f, session) => session.attachPart type index f

/-- The engine for the words behind the name of a kernel, and the words of its parameters. A user
function takes two words for its module and its type, and the next number. -/
def readEngine (session : Session) (userCount : Nat) (kernel : Kernel) (words : List String) :
    Except Fault (Engine × List String) × Session × Nat :=
  let checked (engine : Engine) : Except Fault (Engine × List String) × Session × Nat :=
    if kernel.arity.accepts words.length then (.ok (engine, words), session, userCount)
    else (.error (.wrongCount kernel words.length), session, userCount)
  match kernel with
  | .closed form => checked (.closed form)
  | .static family => checked (.static ⟨family, .empty⟩)
  | .dynamic family => checked (.dynamic ⟨family, .empty⟩)
  | .user =>
    match words with
    | module :: type :: params =>
      match session.bindFunction module type userCount with
      | (.ok f, session) => (.ok (.user f, params), session, userCount + 1)
      | (.error e, session) => (.error e, session, userCount + 1)
    | _ => (.error (.wrongCount .user words.length), session, userCount)

/-- The factor of a line with the given words. -/
def readFactor (session : Session) (ctx : BuildContext) (userCount : Nat) (line : Nat)
    (words : List String) : Except Fault Factor × Session × Nat :=
  let name := words.headD ""
  match Kernel.search name with
  | none => (.error (.undefinedKernel name), session, userCount)
  | some kernel =>
    match session.readEngine userCount kernel words.tail with
    | (.error e, session, userCount) => (.error e, session, userCount)
    | (.ok (engine, params), session, userCount) =>
      match params.mapM ctx.readToken with
      | .error e => (.error e, session, userCount)
      | .ok references => (.ok ⟨line, references, engine⟩, session, userCount)

end Session

/-! ## Reading a block -/

/-- How far a block has been read. -/
structure Reading where
  session : Session
  /-- The number of user functions so far. -/
  userCount : Nat
  /-- The finished terms. -/
  terms : List (List Factor)
  /-- The factors of the current term. -/
  term : List Factor
  lastSeparator : Option Nat

namespace Reading

def start (session : Session) : Reading := ⟨session, 0, [], [], none⟩

/-- Reads a line: the fault that ends the reading, or nothing, and the reading afterwards. -/
def step (ctx : BuildContext) (reading : Reading) (line : TheoryLine) :
    Option BuildError × Reading :=
  if line.content.isEmpty then (none, reading)
  else if line.isSeparator then
    if reading.term.isEmpty then (some ⟨line.number, .misplacedSeparator⟩, reading)
    else (none, { reading with
      terms := reading.terms ++ [reading.term], term := [], lastSeparator := some line.number })
  else
    match reading.session.readFactor ctx reading.userCount line.number line.tokens with
    | (.error e, session, userCount) => (some ⟨line.number, e⟩, { reading with session, userCount })
    | (.ok factor, session, userCount) =>
      (none, { reading with session, userCount, term := reading.term ++ [factor] })

/-- Reads lines until one has a fault. -/
def steps (ctx : BuildContext) (reading : Reading) : List TheoryLine → Option BuildError × Reading
  | [] => (none, reading)
  | line :: rest =>
    match reading.step ctx line with
    | (some e, reading) => (some e, reading)
    | (none, reading) => reading.steps ctx rest

/-- What is wrong at the end of a block whose lines are read; `first` is the number of its first
line. -/
def endError (reading : Reading) (first : Nat) : Option BuildError :=
  if reading.term.isEmpty then
    match reading.lastSeparator with
    | some line => some ⟨line, .misplacedSeparator⟩
    | none => some ⟨first, .emptyTheory⟩
  else none

/-- All terms. -/
def allTerms (reading : Reading) : List (List Factor) := reading.terms ++ [reading.term]

end Reading

/-- The theory of a block, or its first fault, and the session afterwards. -/
def Session.build (session : Session) (ctx : BuildContext) (lines : List TheoryLine) :
    Except BuildError Theory × Session :=
  match (Reading.start session).steps ctx lines with
  | (some e, reading) => (.error e, reading.session)
  | (none, reading) =>
    match reading.endError ((lines.head?.map (·.number)).getD 0) with
    | some e => (.error e, reading.session)
    | none => (.ok (.ofTerms reading.allTerms), reading.session)

end MuonSpin
