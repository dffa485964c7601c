import MuonSpin.Kernel.Formulas
import MuonSpin.Numeric.SampledTable

/-!
# Static Kubo–Toyabe relaxation in a longitudinal field

The polarization contains a running integral without a closed form. It is integrated by the
trapezoid rule on a uniform grid over twenty microseconds and read back by interpolation. Without a
field, or with a field far below the width, the closed form for zero field takes its place.

* `FieldFamily.usesZeroField`, `stepWidth`: which form is used, and the grid;
* `Integration`: the polarization of a family as a function of the time and the running integral;
* `StaticField.compute`, `StaticField.value`: the form for a field and a width, and its values.
-/

namespace MuonSpin

open Elementary

variable {α : Type} [Add α] [Sub α] [Mul α] [Neg α] [Div α] [Zero α] [NatCast α] [OfScientific α]
  [LT α] [DecidableLT α] [LE α] [DecidableLE α] [BEq α] [Elementary α]

/-- The end of every tabulated time axis, in microseconds. -/
@[inline] def tableEnd : α := 20.0

namespace FieldFamily

def name : FieldFamily → String
  | gauss => "gauss"
  | lorentz => "lorentz"

/-- The static Kubo–Toyabe function of the family in zero field. -/
@[specialize] def zeroField (family : FieldFamily) (rate tau : α) : α :=
  match family with
  | gauss => Formula.gaussKuboToyabe rate tau
  | lorentz => Formula.lorentzKuboToyabe rate tau

/-- The ratio of width and field above which the form for zero field is used. -/
@[inline] def zeroFieldRatio : FieldFamily → α
  | gauss => 79.5775
  | lorentz => 159.1549

/-- The field `nu` is too small, in itself or beside the width, to be told from zero. -/
@[specialize] def usesZeroField (family : FieldFamily) (nu rate : α) : Bool :=
  if nu < 0.02 then true else decide (family.zeroFieldRatio < rate / nu)

end FieldFamily

/-- The step of the grid: twenty steps to a period of the field, three thousand to a decay, and at
least a thousand to a microsecond. -/
@[specialize] def stepWidth (nu rate : α) : α :=
  let dt := 0.001
  let dt := if rate < nu ∧ 1.0 / (20.0 * nu) < dt then 1.0 / (20.0 * nu) else dt
  if nu < rate ∧ 1.0 / (3000.0 * rate) < dt then 1.0 / (3000.0 * rate) else dt

/-- The number of grid points over the time axis. It is checked for overflow: `none`, which stops the
evaluation, if the number is beyond the largest index. -/
@[specialize] def gridSize? (dt : α) : Option Nat :=
  successor? α (toIndex (round (tableEnd / dt)))

/-! ## Integration -/

/-- A polarization with a running integral. -/
structure Integration (α : Type) where
  /-- What is integrated. -/
  integrand : α → α
  /-- The factor that damps all that depends on time. -/
  envelope : α → α
  /-- The polarization at a time, from the envelope and the integral up to that time. -/
  polarization : (tau envelope integral : α) → α
  /-- A bound on what is left of the polarization's time dependence, from the envelope. -/
  remainder : α → α

namespace Integration

/-- The Gaussian family:
`1 - 2(Δ/ω)² (1 - exp(-Δ²τ²/2) cos ωτ) + 2Δ⁴/ω³ ∫₀^τ exp(-Δ²s²/2) sin ωs ds`. -/
@[inline] def gauss (nu delta dt : α) : Integration α :=
  let omega := turn * nu
  let d2 := delta * delta
  let c1 := 2.0 * d2 / (omega * omega)
  let c2 := 2.0 * d2 * d2 / cube omega
  { integrand := fun s => exp (-0.5 * d2 * s * s) * sin (omega * s)
    envelope := fun tau => exp (-0.5 * d2 * tau * tau)
    polarization := fun tau envelope integral =>
      1.0 - c1 * (1.0 - envelope * cos (omega * tau)) + c2 * integral
    remainder := fun envelope => envelope * (c1 + c2 * dt) }

/-- The spherical Bessel functions of `ωτ`, with their limits where it is small. -/
@[inline] def besselPair (x : α) : α × α :=
  if abs x < 0.001 then (1.0, 0) else (sphericalJ0 x, sphericalJ1 x)

/-- The Lorentzian family:
`1 - (a/ω) j₁(ωτ) exp(-aτ) - (a/ω)² (j₀(ωτ) exp(-aτ) - 1) - a (1 + (a/ω)²) ∫₀^τ j₀(ωs) exp(-as) ds`.
-/
@[inline] def lorentz (nu a dt : α) : Integration α :=
  let omega := turn * nu
  let r := a / omega
  let r2 := r * r
  let c3 := a * (1.0 + r2)
  { integrand := fun s => sphericalJ0 (omega * s) * exp (-a * s)
    envelope := fun tau => exp (-a * tau)
    polarization := fun tau envelope integral =>
      let j := besselPair (omega * tau)
      1.0 - r * j.2 * envelope - r2 * (j.1 * envelope - 1.0) - c3 * integral
    remainder := fun envelope => envelope * (r + r2 + c3 * dt) }

/-- The remainder below which the integration stops. -/
@[inline] def negligible : α := 1e-10

/-- Appends the samples from number `i` on, at most `count` of them, until the remainder is
negligible; `previous` is the integrand at the sample before. -/
@[specialize] def extend (f : Integration α) (dt : α) :
    (count i : Nat) → (previous integral : α) → Array α → Array α
  | 0, _, _, _, samples => samples
  | count + 1, i, previous, integral, samples =>
    let tau := (i : α) * dt
    let current := f.integrand tau
    let integral := integral + 0.5 * dt * (previous + current)
    let envelope := f.envelope tau
    let samples := samples.push (f.polarization tau envelope integral)
    if f.remainder envelope < negligible then samples
    else extend f dt count (i + 1) current integral samples

/-- The samples on a grid of `size` points. -/
@[specialize] def samples (f : Integration α) (dt : α) (size : Nat) : Array α :=
  extend f dt (size - 1) 1 (f.integrand 0) 0 #[1.0]

end Integration

/-! ## The polarization -/

/-- Static relaxation for one field and one width. -/
structure StaticField (α : Type) where
  family : FieldFamily
  rate : α
  /-- The integrated polarization; without it the form for zero field is used. -/
  table : Option (SampledTable α)

namespace StaticField

/-- The samples of a family on the grid of width `dt`. -/
@[specialize] def integrate (family : FieldFamily) (nu rate dt : α) (size : Nat) : Array α :=
  match family with
  | .gauss => (Integration.gauss nu rate dt).samples dt size
  | .lorentz => (Integration.lorentz nu rate dt).samples dt size

/-- The polarization for the field `nu` and the width `rate`, or `none` if its grid has too many
points. -/
@[specialize] def compute (family : FieldFamily) (nu rate : α) : Option (StaticField α) :=
  if family.usesZeroField nu rate then some ⟨family, rate, none⟩
  else
    let dt := stepWidth nu rate
    match gridSize? dt with
    | none => none
    | some size => some ⟨family, rate, some ⟨dt, integrate family nu rate dt size⟩⟩

/-- The polarization at a time. A table reads one before time zero, the form for zero field is the
same for all times. -/
@[specialize] def value (field : StaticField α) (tau : α) : Option α :=
  match field.table with
  | none => some (field.family.zeroField field.rate tau)
  | some table => table.lookup tau 1.0

end StaticField

end MuonSpin
