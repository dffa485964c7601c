import MuonSpin.UserFunction.Parts

/-!
# User functions

A function of time and parameters supplied from outside, and the factories that create instances of
it by the name of its type.

* `UserFunction`: the function, and how an instance attaches the part it shares with others;
* `UserInstance`: an instance with the index of the part it holds, if it holds one;
* `Factories`: the known types; **registering a type anew replaces its function**, and no type is
  ever removed;
* `ModuleInit`: what a module changes about them, step by step.
-/

namespace MuonSpin

/-- A function supplied by the user. -/
structure UserFunction where
  /-- Instances share state through a global part. -/
  needsPart : Bool
  /-- Attaches the part for an instance number, and gives the index to hold it by. -/
  bind : (index : Nat) → GlobalParts → Except UserFunctionError Nat × GlobalParts
  /-- The value at a time for some parameters, and the shared parts afterwards. -/
  evaluate : (handle : Option Nat) → GlobalParts → (t : Float) → (params : List Float) →
    Option Float × GlobalParts

namespace UserFunction

/-- A function without shared state. -/
def stateless (f : Float → List Float → Option Float) : UserFunction where
  needsPart := false
  bind index parts := (.ok index, parts)
  evaluate _ parts t params := (f t params, parts)

end UserFunction

/-- An instance of a user function. -/
structure UserInstance where
  function : UserFunction
  /-- The index of the attached part. -/
  handle : Option Nat

namespace UserInstance

/-- A fresh instance. -/
def create (function : UserFunction) : UserInstance := ⟨function, none⟩

/-- Attaches the part for an instance number. -/
def bind (self : UserInstance) (index : Nat) (parts : GlobalParts) :
    Except UserFunctionError UserInstance × GlobalParts :=
  let (handle, parts) := self.function.bind index parts
  (handle.map fun h => { self with handle := some h }, parts)

def evaluate (self : UserInstance) (parts : GlobalParts) (t : Float) (params : List Float) :
    Option Float × GlobalParts :=
  self.function.evaluate self.handle parts t params

end UserInstance

/-! ## Factories -/

/-- The functions by the names of their types, the names in ascending order. -/
structure Factories where
  entries : List (String × UserFunction)

namespace Factories

def empty : Factories := ⟨[]⟩

/-- Puts a function in its place, over one of the same name. -/
def insertEntry (name : String) (function : UserFunction) :
    List (String × UserFunction) → List (String × UserFunction)
  | [] => [(name, function)]
  | entry :: rest =>
    if name < entry.1 then (name, function) :: entry :: rest
    else if entry.1 < name then entry :: insertEntry name function rest
    else (name, function) :: rest

/-- Makes a type known. -/
def register (factories : Factories) (name : String) (function : UserFunction) : Factories :=
  ⟨insertEntry name function factories.entries⟩

/-- The known types in ascending order. -/
def names (factories : Factories) : List String := factories.entries.map (·.1)

def contains (factories : Factories) (name : String) : Bool :=
  (factories.entries.lookup name).isSome

/-- A fresh instance of a type. -/
def create? (factories : Factories) (name : String) : Option UserInstance :=
  (factories.entries.lookup name).map UserInstance.create

end Factories

/-! ## Modules -/

/-- What a module changes about the known types when it is loaded, one change after the other. The
types are looked up between these changes as well, for other theories that are built meanwhile. -/
structure ModuleInit where
  changes : List (Factories → Factories)

namespace ModuleInit

/-- Makes types known, one after the other. -/
def registering (functions : List (String × UserFunction)) : ModuleInit :=
  ⟨functions.map fun entry factories => factories.register entry.1 entry.2⟩

/-- The factories behind all changes. -/
def run (init : ModuleInit) (factories : Factories) : Factories :=
  init.changes.foldl (fun factories change => change factories) factories

end ModuleInit

end MuonSpin
