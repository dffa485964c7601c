import MuonSpin.UserFunction.Builtin

/-!
# Loading modules

A module makes functions known. Where a theory names a type that is not known, its module is asked
for.

* `Modules`: the modules that come with the program;
* `Loader`: such modules, or two loaders of which the second is asked where the first fails;
* `Loader.load`: **a failing load leaves the factories as they were**, and reports the failure of
  the loader that was asked last.
-/

namespace MuonSpin

/-- Modules by name, with what they make known. -/
structure Modules where
  known : List (String × ModuleInit)

namespace Modules

/-- No modules. -/
def empty : Modules := ⟨[]⟩

/-- Adds a module, in place of one of the same name. -/
def withModule (modules : Modules) (name : String) (init : ModuleInit) : Modules :=
  ⟨(name, init) :: modules.known⟩

/-- The built-in module. -/
def standard : Modules := empty.withModule Builtin.moduleName Builtin.init

end Modules

/-- Where modules come from. -/
inductive Loader where
  | static (modules : Modules)
  | chain (primary fallback : Loader)

namespace Loader

/-- The loader that knows the built-in module. -/
def standard : Loader := static .standard

/-- The factories with those of a module. -/
def load (loader : Loader) (module : String) (factories : Factories) :
    Except UserFunctionError Factories :=
  match loader with
  | static modules =>
    match modules.known.lookup module with
    | some init => .ok (init.run factories)
    | none => .error (.moduleNotLoaded module "no compiled-in module with this name")
  | chain primary fallback =>
    match primary.load module factories with
    | .ok factories => .ok factories
    | .error _ => fallback.load module factories

end Loader

end MuonSpin
