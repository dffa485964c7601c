import MuonSpin.Numeric.SampledTable
import MuonSpin.Kernel.StaticField

/-!
# Shared parts

State that user functions share, kept under an index for as long as the session lasts. A part has a
kind, and is handed out only to a function that asks for this kind.

* `ExpTable`, `ExpTable.ensure`: an exponential decay over twenty microseconds, in steps of a
  nanosecond, for the rate it was last asked for; **the table of another rate is replaced**, that of
  the same rate kept;
* `GlobalParts.getOrInsert`: the part under an index, made by an initializer if there is none; **the
  initializer does not run where a part is**, and a failing one leaves all parts as they were;
* `UserFunctionError`: what can fail, and its wording.
-/

namespace MuonSpin

/-! ## A table of one exponential -/

/-- The samples of an exponential, with the bit pattern of its rate. -/
structure ExpTable where
  rateBits : Option UInt64
  table : SampledTable Float

namespace ExpTable

/-- A table without samples. -/
def empty : ExpTable := ⟨none, ⟨0, #[]⟩⟩

/-- The number of samples. -/
def size : Nat := 20000

def step : Float := 0.001

/-- The samples for a rate. -/
def ofRate (rate : Float) : ExpTable :=
  ⟨some rate.toBits, ⟨step, (Array.range size).map fun i => Float.exp (-rate * i.toFloat * step)⟩⟩

/-- The table for a rate: the given one if it has this rate. -/
def ensure (table : ExpTable) (rate : Float) : ExpTable :=
  if table.rateBits = some rate.toBits then table else ofRate rate

def lookup (table : ExpTable) (t : Float) : Option Float := table.table.lookup t 1.0

end ExpTable

/-! ## Parts -/

/-- Failures of loading a module or of attaching a shared part. -/
inductive UserFunctionError where
  | moduleNotLoaded (module reason : String)
  | otherPartKind (index : Nat)
  | partNotInitialized (index : Nat) (reason : String)
  deriving DecidableEq

def UserFunctionError.message : UserFunctionError → String
  | moduleNotLoaded module reason =>
    "module '" ++ module ++ "' could not be loaded: " ++ reason
  | otherPartKind index => "global part " ++ toString index ++ " holds a value of another type"
  | partNotInitialized index reason =>
    "global part " ++ toString index ++ " could not be initialized: " ++ reason

/-- What a shared part can be. -/
inductive PartKind where
  | expTable
  | number
  | byte
  | text
  deriving DecidableEq

/-- The values of a kind. -/
@[reducible] def PartKind.Value : PartKind → Type
  | expTable => ExpTable
  | number => Float
  | byte => UInt8
  | text => String

/-- A shared value with its kind. -/
structure Part where
  kind : PartKind
  value : kind.Value

/-- The value, if it is of the given kind. -/
def Part.as? (part : Part) (kind : PartKind) : Option kind.Value :=
  if h : part.kind = kind then some (h ▸ part.value) else none

/-- The shared parts, each under an index of its own. -/
structure GlobalParts where
  entries : List (Nat × Part)

namespace GlobalParts

def empty : GlobalParts := ⟨[]⟩

/-- The number of indices in use. -/
def size (parts : GlobalParts) : Nat := parts.entries.length

def get? (parts : GlobalParts) (index : Nat) : Option Part := parts.entries.lookup index

/-- Puts a part under an index that is free. -/
def insert (parts : GlobalParts) (index : Nat) (part : Part) : GlobalParts :=
  ⟨(index, part) :: parts.entries⟩

/-- Changes the value of the part under an index that is in use. -/
def set (parts : GlobalParts) (index : Nat) (part : Part) : GlobalParts :=
  ⟨parts.entries.map fun entry => if entry.1 = index then (index, part) else entry⟩

/-- The value of a kind under an index, if there is one. -/
def value? (parts : GlobalParts) (kind : PartKind) (index : Nat) : Option kind.Value :=
  (parts.get? index).bind (·.as? kind)

/-- The value of a kind under an index, made by `init` if the index is free. -/
def getOrInsert {m : Type → Type} [Monad m] (parts : GlobalParts) (kind : PartKind) (index : Nat)
    (init : m (Except UserFunctionError kind.Value)) :
    m (Except UserFunctionError kind.Value × GlobalParts) :=
  match parts.get? index with
  | some part =>
    match part.as? kind with
    | some value => pure (.ok value, parts)
    | none => pure (.error (.otherPartKind index), parts)
  | none => do
    match ← init with
    | .ok value => pure (.ok value, parts.insert index ⟨kind, value⟩)
    | .error e => pure (.error e, parts)

end GlobalParts

end MuonSpin
