import MuonSpin.UserFunction.Basic
import MuonSpin.Kernel.Formulas

/-!
# Built-in user functions

* `tabulatedExp`: an exponential decay read from a table that all instances of one number share;
  the table is recomputed whenever the rate changes;
* `stretchedExp`: a stretched exponential, without state;
* `Builtin.init`: what the built-in module makes known, **one type after the other**.
-/

namespace MuonSpin

namespace Builtin

/-- The value of the exponential inside the table's range, and the parts with their table up to
date. -/
def tabulatedValue (handle : Option Nat) (parts : GlobalParts) (t rate : Float) :
    Option Float × GlobalParts :=
  match handle with
  | none => (some (Float.exp (-rate * t)), parts)
  | some index =>
    match parts.value? .expTable index with
    | none => (some (Float.exp (-rate * t)), parts)
    | some table =>
      let table := table.ensure rate
      (table.lookup t, parts.set index ⟨.expTable, table⟩)

/-- An exponential decay whose rate is the first parameter: one until time zero, zero from twenty
microseconds on. -/
def tabulatedExp : UserFunction where
  needsPart := true
  bind index parts :=
    let (table, parts) :=
      Id.run (parts.getOrInsert .expTable index (pure (.ok ExpTable.empty)))
    (table.map fun _ => index, parts)
  evaluate handle parts t params :=
    if t ≤ 0 then (some 1.0, parts)
    else if tableEnd ≤ t then (some 0.0, parts)
    else tabulatedValue handle parts t (params.headD 0.0)

/-- A stretched exponential of a rate and an exponent, which is one if not given. -/
def stretchedExp : UserFunction :=
  .stateless fun t params =>
    if t ≤ 0 then some 1.0
    else some (Formula.stretchedExp (params.headD 0.0 * t) (params[1]?.getD 1.0))

/-- The name of the built-in module. -/
def moduleName : String := "libBuiltinUserFcn"

/-- The type that the module makes known first. -/
def firstType : String := "TabulatedExpFcn"

/-- The type that the module makes known last. -/
def lastType : String := "StretchedExpFcn"

/-- Makes the built-in functions known. -/
def init : ModuleInit := .registering [(firstType, tabulatedExp), (lastType, stretchedExp)]

end Builtin

end MuonSpin
