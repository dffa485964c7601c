import MuonSpin.Kernel.Basic
import MuonSpin.Numeric.SpecialFunctions

/-!
# Closed forms

The formulas behind the kernels that need no table. Times are in microseconds, phases in degrees,
frequencies in megahertz and rates in inverse microseconds.

* `shiftedTime`: the time behind a time shift, which is the value that follows the parameters;
* `ClosedForm.value`: a kernel at a time and a list of values, or `none` where the list is too
  short;
* **a polynomial has its time shift in front**, so its last value is always a coefficient.
-/

namespace MuonSpin

open Elementary

variable {α : Type} [Add α] [Sub α] [Mul α] [Neg α] [Div α] [Zero α] [NatCast α] [OfScientific α]
  [LT α] [DecidableLT α] [LE α] [DecidableLE α] [BEq α] [Elementary α]

/-- The time since the time shift, if `n` values are followed by one that gives it. -/
@[specialize] def shiftedTime (t : α) (val : List α) (n : Nat) : α :=
  match val[n]? with
  | some shift => if val.length = n + 1 then t - shift else t
  | none => t

/-! ## Arguments -/

/-- A function of `n` values. -/
@[reducible] def Arguments (β : Type) : Nat → Type
  | 0 => β
  | n + 1 => β → Arguments β n

/-- A function of the first `n` values, or `none` where there are fewer. -/
@[specialize] def withFirst {β : Type} : (n : Nat) → Arguments β n → List β → Option β
  | 0, x, _ => some x
  | _ + 1, _, [] => none
  | n + 1, f, a :: val => withFirst n (f a) val

theorem withFirst_eq_none_iff {β : Type} {n : Nat} {f : Arguments β n} {val : List β} :
    withFirst n f val = none ↔ val.length < n := by
  induction n generalizing val with
  | zero => simp [withFirst]
  | succ n ih =>
    cases val with
    | nil => simp [withFirst]
    | cons a val => rw [withFirst, ih, List.length_cons, Nat.add_lt_add_iff_right]

/-! ## Formulas -/

namespace Formula

@[inline] def oneThird : α := 1.0 / 3.0

@[inline] def twoThirds : α := 2.0 / 3.0

/-- An angle in radians. -/
@[inline] def degrees (phase : α) : α := 0.0174532925199432955 * phase

/-- The angle of a precession that starts at a phase in degrees. -/
@[inline] def angle (phase nu tau : α) : α := degrees phase + turn * nu * tau

/-- The field (MHz) below which a kernel of an internal field takes its form for zero field. -/
@[inline] def smallInternalField : α := 0.01

@[inline] def exponential (rate tau : α) : α := exp (-rate * tau)

/-- A Gaussian of the given width. -/
@[inline] def gaussian (sigma tau : α) : α := exp (-0.5 * square (sigma * tau))

/-- A stretched exponential; zero where the power is not real. -/
@[specialize] def stretchedExp (x beta : α) : α :=
  if x < 0 ∧ hasFraction beta then 0 else exp (-(pow x beta))

/-- The static Gaussian Kubo–Toyabe function in zero field. -/
@[specialize] def gaussKuboToyabe (delta tau : α) : α :=
  let s2 := square (delta * tau)
  oneThird + twoThirds * (1.0 - s2) * exp (-0.5 * s2)

/-- The static Lorentzian Kubo–Toyabe function in zero field. -/
@[specialize] def lorentzKuboToyabe (a tau : α) : α :=
  let at' := a * tau
  oneThird + twoThirds * (1.0 - at') * exp (-at')

@[specialize] def combinedKuboToyabe (lambda sigma tau : α) : α :=
  let lt := lambda * tau
  let s2 := square (sigma * tau)
  oneThird * (1.0 + 2.0 * (1.0 - lt - s2) * exp (-(lt + 0.5 * s2)))

/-- The stretched Kubo–Toyabe function; one third once it has decayed. -/
@[specialize] def stretchedKuboToyabe (sigma beta tau : α) : α :=
  let base := sigma * tau
  if base < 0 ∧ hasFraction beta then 0
  else
    let x := pow base beta
    if !isFinite x then oneThird
    else
      let damping := exp (-x / beta)
      if damping == 0 then oneThird else oneThird + twoThirds * (1.0 - x) * damping

/-- The square of the longitudinal rate of a spin glass. -/
@[specialize] def spinGlassRate (lambda2 nu q tau : α) : α :=
  let numerator := 4.0 * lambda2 * (1.0 - q) * tau
  if numerator == 0 then 0 else if nu == 0 then infinity else larger (numerator / nu) 0

/-- The spin-glass function of a rate, a hopping rate and an order parameter. -/
@[specialize] def spinGlass (lambda nu q tau : α) : α :=
  if lambda == 0 || decide (tau ≤ 0) then 1.0
  else
    let lambda2 := lambda * lambda
    let order := tau * tau * lambda2 * q
    let rate2 := spinGlassRate lambda2 nu q tau
    let rateL := sqrt rate2
    let rateT := sqrt (larger (rate2 + order) 0)
    let ratio := if rateT == 0 || isInfinite rateT then 0 else order / rateT
    oneThird * (exp (-rateL) + 2.0 * (1.0 - ratio) * exp (-rateT))

@[specialize] def anisotropicHyperfine (nu lambda tau : α) : α :=
  let nuT := nu * tau
  let lambdaT := lambda * tau
  1.0 / 6.0 * (1.0 - 0.5 * nuT) * exp (-0.5 * nuT)
    + oneThird * (1.0 - 0.25 * nuT) * exp (-0.25 * (nuT + 2.44949 * lambdaT))

@[specialize] def abragam (sigma gamma tau : α) : α :=
  if gamma == 0 then gaussian sigma tau
  else
    let gammaT := gamma * tau
    exp (-(square (sigma / gamma)) * (exp (-gammaT) - 1.0 + gammaT))

/-- An oscillating fraction that relaxes and a longitudinal one. -/
@[specialize] def internal (wave : α → α) (fraction phase nu rateT rateL tau : α) : α :=
  fraction * wave (angle phase nu tau) * exp (-rateT * tau)
    + (1.0 - fraction) * exp (-rateL * tau)

@[specialize] def internalFieldGauss (fraction nu sigma lambda beta tau : α) : α :=
  let s2 := sigma * sigma
  let gauss := exp (-0.5 * s2 * tau * tau)
  let omega := turn * nu
  let transverse :=
    if nu < smallInternalField then (1.0 - s2 * tau * tau) * gauss
    else (cos (omega * tau) - s2 * tau / omega * sin (omega * tau)) * gauss
  fraction * transverse + (1.0 - fraction) * stretchedExp (lambda * tau) beta

@[specialize] def internalFieldLorentz (fraction nu a lambda tau : α) : α :=
  let damping := exp (-a * tau)
  let omega := turn * nu
  let transverse :=
    if nu < smallInternalField then (1.0 - a * tau) * damping
    else (cos (omega * tau) - a / omega * sin (omega * tau)) * damping
  fraction * transverse + (1.0 - fraction) * exp (-lambda * tau)

/-- What the skewed Gaussian gives once its arguments leave the stable range. -/
@[inline] def skewedOverflow : α := 2.0e6

/-- Precession in a field distribution with different widths below and above its maximum. -/
@[specialize] def skewedGaussian (phase nu sigmaM sigmaP tau : α) : α :=
  let sm := abs sigmaM
  let sp := abs sigmaP
  let zp := sp * tau * 0.7071067811865476
  let zm := sm * tau * 0.7071067811865476
  if 25.0 ≤ zp ∨ 25.0 ≤ zm then skewedOverflow
  else
    let arg := angle phase nu tau
    let gp := exp (-0.5 * square (tau * sigmaP))
    if sm == sp then cos arg * gp
    else
      let gm := exp (-0.5 * square (tau * sigmaM))
      let wp := sp / (sm + sp)
      let wm := 1.0 - wp
      cos arg * (wm * gm + wp * gp)
        + sin arg * (wm * gaussScaledErfi zm - wp * gaussScaledErfi zp)

@[specialize] def staticNoakesKalvius (delta rb tau : α) : α :=
  let s2 := square (delta * tau)
  let theta := 1.0 + rb * rb * s2
  oneThird + twoThirds * pow theta (-1.5) * (1.0 - s2 / theta) * exp (-0.5 * s2 / theta)

@[specialize] def staticNoakesKalviusEnvelope (delta rb tau : α) : α :=
  let s2 := square (delta * tau)
  let theta := 1.0 + rb * rb * s2
  pow theta (-0.5) * exp (-0.5 * s2 / theta)

/-- The integral of `(τ - s) exp(-ν s)` over `s` from zero to `τ`. -/
@[specialize] def memoryIntegral (nuC tau : α) : α :=
  if nuC < 1e-6 then 0.5 * tau * tau
  else (exp (-nuC * tau) - 1.0 + nuC * tau) / (nuC * nuC)

@[specialize] def dynamicNoakesKalvius (delta rb nuC tau : α) : α :=
  let d2 := delta * delta
  let theta := memoryIntegral nuC tau
  let denominator := 1.0 + 4.0 * rb * rb * d2 * theta
  pow denominator (-0.5) * exp (-2.0 * d2 * theta / denominator)

@[specialize] def dynamicNoakesKalviusEnvelope (delta rb nuC tau : α) : α :=
  let d2 := delta * delta
  let theta := memoryIntegral nuC tau
  let denominator := 1.0 + 2.0 * rb * rb * d2 * theta
  pow denominator (-0.5) * exp (-d2 * theta / denominator)

/-- The decay of negative muons with precession; a lifetime that is not positive stops the decay. -/
@[specialize] def negativeMuon (n0 lifetime asymmetry lambda phase nu tau : α) : α :=
  let decay := if 0 < lifetime then exp (-tau / lifetime) else 1.0
  n0 * decay * (1.0 + asymmetry * exp (-lambda * tau) * cos (angle phase nu tau))

/-- The dipolar polarization of a muon between two fluorine nuclei. -/
@[specialize] def fluorineMuonFluorine (omega tau : α) : α :=
  let s3 := sqrt 3.0
  let wt := omega * tau
  1.0 / 6.0
    * (3.0
      + cos (s3 * wt)
      + (1.0 - 1.0 / s3) * cos ((3.0 - s3) / 2.0 * wt)
      + (1.0 + 1.0 / s3) * cos ((3.0 + s3) / 2.0 * wt))

/-- The polynomial with the given coefficients, by Horner's rule. -/
@[specialize] def horner (coefficients : List α) (x : α) : α :=
  coefficients.foldr (fun a acc => acc * x + a) 0

/-- A polynomial in the time since the shift in front of its coefficients. -/
@[specialize] def polynomial (t : α) : List α → α
  | [] => 0
  | shift :: coefficients => horner coefficients (t - shift)

end Formula

/-! ## Kernels -/

/-- The value of a kernel at time `t`, or `none` if there are too few values. -/
@[specialize] def ClosedForm.value (form : ClosedForm) (t : α) (val : List α) : Option α :=
  let tau := shiftedTime t val form.signature.arity.least
  match form with
  | constant => withFirst 1 (fun x => x) val
  | asymmetry => withFirst 1 (fun x => x) val
  | exponential => withFirst 1 (fun rate => Formula.exponential rate tau) val
  | stretchedExponential =>
    withFirst 2 (fun rate beta => Formula.stretchedExp (rate * tau) beta) val
  | gaussian => withFirst 1 (fun sigma => Formula.gaussian sigma tau) val
  | gaussKuboToyabe => withFirst 1 (fun delta => Formula.gaussKuboToyabe delta tau) val
  | lorentzKuboToyabe => withFirst 1 (fun a => Formula.lorentzKuboToyabe a tau) val
  | combinedKuboToyabe => withFirst 2 (fun a delta => Formula.combinedKuboToyabe a delta tau) val
  | stretchedKuboToyabe =>
    withFirst 2 (fun rate beta => Formula.stretchedKuboToyabe rate beta tau) val
  | spinGlass => withFirst 3 (fun rate nu q => Formula.spinGlass rate nu q tau) val
  | anisotropicHyperfine =>
    withFirst 2 (fun nu rate => Formula.anisotropicHyperfine nu rate tau) val
  | abragam => withFirst 2 (fun sigma gamma => Formula.abragam sigma gamma tau) val
  | internalField =>
    withFirst 5 (fun fraction phase nu rateT rateL =>
      Formula.internal cos fraction phase nu rateT rateL tau) val
  | internalFieldGauss =>
    withFirst 5 (fun fraction nu sigma rate beta =>
      Formula.internalFieldGauss fraction nu sigma rate beta tau) val
  | internalFieldLorentz =>
    withFirst 4 (fun fraction nu a rate => Formula.internalFieldLorentz fraction nu a rate tau) val
  | precession => withFirst 2 (fun phase nu => cos (Formula.angle phase nu tau)) val
  | besselPrecession => withFirst 2 (fun phase nu => besselJ0 (Formula.angle phase nu tau)) val
  | internalBessel =>
    withFirst 5 (fun fraction phase nu rateT rateL =>
      Formula.internal besselJ0 fraction phase nu rateT rateL tau) val
  | skewedGaussian =>
    withFirst 4 (fun phase nu sigmaM sigmaP =>
      Formula.skewedGaussian phase nu sigmaM sigmaP tau) val
  | staticNoakesKalvius =>
    withFirst 2 (fun delta rb => Formula.staticNoakesKalvius delta rb tau) val
  | staticNoakesKalviusTransverse =>
    withFirst 4 (fun phase nu delta rb =>
      Formula.staticNoakesKalviusEnvelope delta rb tau * cos (Formula.angle phase nu tau)) val
  | dynamicNoakesKalvius =>
    withFirst 3 (fun delta rb nuC => Formula.dynamicNoakesKalvius delta rb nuC tau) val
  | dynamicNoakesKalviusTransverse =>
    withFirst 5 (fun phase nu delta rb nuC =>
      Formula.dynamicNoakesKalviusEnvelope delta rb nuC tau * cos (Formula.angle phase nu tau)) val
  | negativeMuon =>
    withFirst 6 (fun n0 lifetime asymmetry rate phase nu =>
      Formula.negativeMuon n0 lifetime asymmetry rate phase nu tau) val
  | fluorineMuonFluorine => withFirst 1 (fun omega => Formula.fluorineMuonFluorine omega tau) val
  | polynomial => some (Formula.polynomial t val)

end MuonSpin
