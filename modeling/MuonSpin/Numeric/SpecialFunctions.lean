import MuonSpin.Numeric.Scalar

/-!
# Special functions

* `besselJ0`: the Bessel function of order zero, a rational approximation for arguments below 8 and
  the asymptotic form beyond;
* `dawson`: Dawson's integral `exp(-x²) ∫₀ˣ exp(y²) dy`, a power series for arguments below 10
  (`DawsonSeries`) and the asymptotic series beyond;
* `gaussScaledErfi`: `exp(-x²) erfi(x)`, which stays finite where `erfi` does not;
* `sphericalJ0`, `sphericalJ1`: spherical Bessel functions with their limits at zero.
-/

namespace MuonSpin

open Elementary

variable {α : Type} [Add α] [Sub α] [Mul α] [Neg α] [Div α] [Zero α] [NatCast α] [OfScientific α]
  [LT α] [DecidableLT α] [LE α] [DecidableLE α] [Elementary α]

/-- The circle constant. -/
@[inline] def pi : α := 3.141592653589793

/-- A full turn in radians. -/
@[inline] def turn : α := 6.283185307179586

/-- The Bessel function of the first kind of order zero. -/
@[specialize] def besselJ0 (x : α) : α :=
  let ax := abs x
  if ax < 8.0 then
    let y := x * x
    let num := 57568490574.0
      + y * (-13362590354.0
        + y * (651619640.7 + y * (-11214424.18 + y * (77392.33017 + y * -184.9052456))))
    let den := 57568490411.0
      + y * (1029532985.0 + y * (9494680.718 + y * (59272.64853 + y * (267.8532712 + y))))
    num / den
  else
    let z := 8.0 / ax
    let y := z * z
    let xx := ax - 0.785398164
    let p := 1.0
      + y * (-0.1098628627e-2
        + y * (0.2734510407e-4 + y * (-0.2073370639e-5 + y * 0.2093887211e-6)))
    let q := -0.1562499995e-1
      + y * (0.1430488765e-3
        + y * (-0.6911147651e-5 + y * (0.7621095161e-6 - y * 0.934935152e-7)))
    sqrt (0.636619772 / ax) * (cos xx * p - z * sin xx * q)

/-! ## Dawson's integral -/

/-- A partial sum of the power series `Σ x^(2n+1) / (n! (2n+1))`. -/
structure DawsonSeries (α : Type) where
  /-- The number of the term to come. -/
  n : α
  term : α
  sum : α
  /-- The terms no longer count. -/
  finished : Bool

namespace DawsonSeries

/-- The series with its first term. -/
def start (x : α) : DawsonSeries α := ⟨1.0, x, x, false⟩

/-- Adds a term; the series is finished once its terms shrink and the last one is negligible. -/
@[inline] def next (x : α) (s : DawsonSeries α) : DawsonSeries α :=
  let x2 := x * x
  let term := s.term * (x2 / s.n * (2.0 * s.n - 1.0) / (2.0 * s.n + 1.0))
  let sum := s.sum + term
  if x2 < s.n ∧ abs term ≤ 1e-17 * abs sum then ⟨s.n, term, sum, true⟩
  else ⟨s.n + 1.0, term, sum, false⟩

/-- Adds terms until the series is finished, at most `fuel` of them. -/
@[specialize] def run (x : α) : (fuel : Nat) → DawsonSeries α → DawsonSeries α
  | 0, s => s
  | fuel + 1, s =>
    let s := next x s
    if s.finished then s else run x fuel s

/-- A number of terms that suffices for every argument below 10. -/
def fuel : Nat := 1000

end DawsonSeries

/-- The first nine terms of `Σ (2n-1)!! / (2x²)^n`, where `inv` is `1 / (2x²)`. -/
@[specialize] def dawsonAsymptotic (inv : α) : α :=
  let step (s : α × α) (n : Nat) : α × α :=
    let term := s.1 * (((2 * n - 1 : Nat) : α) * inv)
    (term, s.2 + term)
  ([1, 2, 3, 4, 5, 6, 7, 8].foldl step (1.0, 1.0)).2

/-- Dawson's integral. -/
@[specialize] def dawson (x : α) : α :=
  if !isFinite x then 0
  else if 10.0 ≤ abs x then dawsonAsymptotic (1.0 / (2.0 * x * x)) / (2.0 * x)
  else exp (-(x * x)) * (DawsonSeries.run x DawsonSeries.fuel (.start x)).sum

/-- The imaginary error function times `exp(-x²)`. -/
@[specialize] def gaussScaledErfi (x : α) : α := 2.0 / sqrt pi * dawson x

/-! ## Spherical Bessel functions -/

/-- The spherical Bessel function of order zero, `sin x / x`. -/
@[specialize] def sphericalJ0 (x : α) : α :=
  if abs x < 1e-3 then 1.0 - x * x / 6.0 else sin x / x

/-- The spherical Bessel function of order one, `(sin x - x cos x) / x²`. -/
@[specialize] def sphericalJ1 (x : α) : α :=
  if abs x < 1e-3 then x / 3.0 else (sin x - x * cos x) / (x * x)

end MuonSpin
