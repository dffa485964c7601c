import MuonSpin.Kernel.StaticField

/-!
# Dynamic Kubo–Toyabe relaxation in a longitudinal field

With the hopping rate `ν_c` the polarization solves the Volterra equation
`P(t) = p₀(t) exp(-ν_c t) + ν_c ∫₀^t p₀(t-s) exp(-ν_c (t-s)) P(s) ds`, where `p₀` is the static
polarization. The equation is discretized by the trapezoid rule and solved forward. Where hopping
dominates, Keren's formula (Gaussian) or the dominant pole of the resolvent (Lorentzian) is used.

* `Volterra.solve`: the discretized equation for any static polarization;
* `laplace`, `dominantPole`: the Laplace transform of a polarization, and where `ν_c` times it
  crosses one, found by halving a `Bracket`;
* `DynamicField.compute`, `DynamicField.value`: the form for a field, a width and a hopping rate.
-/

namespace MuonSpin

open Elementary

variable {α : Type} [Add α] [Sub α] [Mul α] [Neg α] [Div α] [Zero α] [NatCast α] [OfScientific α]
  [LT α] [DecidableLT α] [LE α] [DecidableLE α] [BEq α] [Elementary α]

/-! ## The Volterra equation -/

namespace Volterra

/-- The bounds of the number of steps. -/
@[inline] def fewestSteps : α := 300.0

@[inline] def mostSteps : α := 1.0e6

/-- The time in which the static polarization of a family changes. -/
@[inline] def characteristicTime (family : FieldFamily) (rate : α) : α :=
  match family with
  | .gauss => sqrt 3.0 / rate
  | .lorentz => 2.0 / rate

/-- The number of steps over the time axis: sixteen to a period of the field, twenty-five to the
characteristic time of a width above a tenth, twenty to a hop. -/
@[specialize] def stepCount (family : FieldFamily) (nu rate nuC : α) : Nat :=
  let n := 16.0 * tableEnd * nu
  let n := if 0.1 < rate then larger n (25.0 * tableEnd / characteristicTime family rate) else n
  let n := larger n (20.0 * tableEnd * nuC)
  toIndex (ceil (between fewestSteps mostSteps n))

/-- The inhomogeneous term `p₀(i dt) exp(-ν_c i dt)` at the steps `0, …, n`. -/
@[specialize] def source (p0 : α → Option α) (nuC dt : α) (n : Nat) : Option (List α) :=
  (List.range (n + 1)).mapM fun (i : Nat) =>
    let t := (i : α) * dt
    (p0 t).map (· * exp (-nuC * t))

/-- Adds `g_{i-j} v_j` for the last `count` values `j` below `i`. -/
@[specialize] def memory (g v : Array α) (i : Nat) : (count : Nat) → α → α
  | 0, sum => sum
  | count + 1, sum =>
    memory g v i count (sum + g.getD (count + 1) 0 * v.getD (i - (count + 1)) 0)

/-- The unknown at step `i`, from the ones before it. -/
@[inline] def unknown (g : Array α) (h norm : α) (v : Array α) (i : Nat) : α :=
  let gi := g.getD i 0
  (gi + h * (0.5 * gi * v.getD 0 0 + memory g v i (i - 1) (-0))) / norm

/-- Solves for the next `count` unknowns. -/
@[specialize] def forward (g : Array α) (h norm : α) : (count : Nat) → Array α → Array α
  | 0, v => v
  | count + 1, v => forward g h norm count (v.push (unknown g h norm v v.size))

/-- The factor of the unknown: what is left of it after its own part in the integral. -/
@[inline] def norm (h g0 : α) : α := 1.0 - 0.5 * h * g0

/-- The solution on `n` steps. -/
@[specialize] def solve (p0 : α → Option α) (nuC : α) (n : Nat) : Option (SampledTable α) :=
  let dt := tableEnd / (n : α)
  match source p0 nuC dt n with
  | none => none
  | some values =>
    let g := values.toArray
    let g0 := g.getD 0 0
    let h := dt * nuC
    some ⟨dt, forward g h (norm h g0) n #[g0]⟩

end Volterra

/-! ## The dominant pole -/

/-- The Laplace transform of a polarization at `z` by the trapezoid rule. Behind the time axis the
polarization keeps its last value. -/
@[specialize] def laplace (p0 : α → Option α) (z : α) : Option α := do
  let stop := smaller tableEnd (40.0 / z)
  let n := toIndex (larger (ceil (stop / smaller (1.0 / (40.0 * z)) 0.01)) 1.0)
  let h := stop / (n : α)
  let inner ← (List.range' 1 (n - 1)).mapM fun (i : Nat) =>
    let t := (i : α) * h
    (p0 t).map (· * exp (-z * t))
  let last := (← p0 stop) * exp (-z * stop)
  let body := h * (total inner + 0.5 * ((← p0 0) + last))
  if stop < tableEnd then pure body else pure (body + last / z)

/-- An interval that is being halved. -/
structure Bracket (α : Type) where
  lo : α
  hi : α

namespace Bracket

@[inline] def middle (b : Bracket α) : α := 0.5 * (b.lo + b.hi)

/-- The half in which a function that falls through one does so. -/
@[inline] def halve (g : α → Option α) (b : Bracket α) : Option (Bracket α) :=
  (g b.middle).map fun y => if 1.0 < y then ⟨b.middle, b.hi⟩ else ⟨b.lo, b.middle⟩

@[specialize] def narrow (g : α → Option α) : (count : Nat) → Bracket α → Option (Bracket α)
  | 0, b => some b
  | count + 1, b => (halve g b).bind (narrow g count)

end Bracket

/-- Where the search for the pole starts. -/
@[inline] def poleBracket (nuC : α) : Bracket α := ⟨1e-9 * nuC, nuC⟩

/-- The bracket of the pole after sixty halvings. -/
@[specialize] def dominantPole (p0 : α → Option α) (nuC : α) : Option (Bracket α) :=
  Bracket.narrow (fun z => (laplace p0 z).map (nuC * ·)) 60 (poleBracket nuC)

/-- The relaxation rate of the slowest mode. -/
@[specialize] def slowestRate (p0 : α → Option α) (nuC : α) : Option α :=
  (dominantPole p0 nuC).map fun b => nuC - b.middle

/-! ## The polarization -/

/-- Dynamic relaxation for one field, one width and one hopping rate. -/
inductive DynamicField (α : Type) where
  /-- Without hopping: the static polarization. -/
  | static (field : StaticField α)
  /-- Keren's formula. -/
  | keren (delta omega nuC : α)
  /-- An exponential decay. -/
  | pole (gamma : α)
  /-- The solved Volterra equation. -/
  | solved (table : SampledTable α)

/-- Keren's formula, which carries Abragam's to finite fields. -/
@[specialize] def kerenFormula (delta omega nuC tau : α) : α :=
  let w2 := omega * omega
  let n2 := nuC * nuC
  let sum := w2 + n2
  let decay := exp (-nuC * tau)
  let exponent := 2.0 * delta * delta / (sum * sum)
    * (sum * nuC * tau + (w2 - n2) * (1.0 - decay * cos (omega * tau))
      - 2.0 * nuC * omega * decay * sin (omega * tau))
  exp (-exponent)

namespace DynamicField

/-- The solved equation for a family. -/
@[specialize] def solve (family : FieldFamily) (nu rate nuC : α) : Option (DynamicField α) := do
  let field ← StaticField.compute family nu rate
  let table ← Volterra.solve field.value nuC (Volterra.stepCount family nu rate nuC)
  pure (solved table)

/-- Hopping is fast beside the width: by itself, or less so if it is fast beside the field too. -/
@[inline] def hopsFast (nu rate nuC : α) : Bool :=
  decide (30.0 * rate ≤ nuC) || (decide (5.0 * rate < nuC) && decide (10.0 * (turn * nu) ≤ nuC))

/-- The pole, if hopping is fast and the mode decays within the time axis; else the equation. -/
@[specialize] def poleOrSolve (nu rate nuC : α) : Option (DynamicField α) := do
  if hopsFast nu rate nuC then
    let field ← StaticField.compute .lorentz nu rate
    let gamma ← slowestRate field.value nuC
    if 14.0 ≤ (nuC - gamma) * tableEnd then pure (pole gamma) else solve .lorentz nu rate nuC
  else solve .lorentz nu rate nuC

/-- The polarization for the field `nu`, the width `rate` and the hopping rate `nuC`, or `none` if a
grid has too many points. -/
@[specialize] def compute (family : FieldFamily) (nu rate nuC : α) : Option (DynamicField α) :=
  if nuC == 0 then (StaticField.compute family nu rate).map static
  else match family with
    | .gauss =>
      if 5.0 * rate < nuC then some (keren rate (turn * nu) nuC) else solve .gauss nu rate nuC
    | .lorentz => poleOrSolve nu rate nuC

/-- The table, if the equation was solved. -/
def table? : DynamicField α → Option (SampledTable α)
  | solved table => some table
  | _ => none

/-- The polarization at a time; one before time zero, except without hopping, where the static
polarization decides. -/
@[specialize] def value (field : DynamicField α) (tau : α) : Option α :=
  match field with
  | static field => field.value tau
  | keren delta omega nuC => some (if tau < 0 then 1.0 else kerenFormula delta omega nuC tau)
  | pole gamma => some (if tau < 0 then 1.0 else exp (-gamma * tau))
  | solved table => table.lookup tau 1.0

end DynamicField

end MuonSpin
