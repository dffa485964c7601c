import MuonSpin.Model.Failure
import MuonSpin.Report.Csv

/-!
# Simulated measurements

Curves with reproducible noise: pseudo-random numbers from a counter that is mixed into 64 well spread
bits, and normal deviates made of pairs of them.

* `Noise.ofSeed`, `Noise.normal`: the generator of a seed and a name, and a normal deviate, at most
  seven in magnitude, with the generator behind it;
* `simulate`: the points of some curves with normal noise of a given width; **each run draws from a
  generator of its own**, so that other runs do not change its noise.
-/

namespace MuonSpin

/-! ## Noise -/

/-- The state of a generator. -/
structure Noise where
  state : UInt64
  deriving DecidableEq

namespace Noise

/-- What the state grows by. -/
def increment : UInt64 := 0x9E3779B97F4A7C15

/-- Spreads the bits of a word. -/
def mix (z : UInt64) : UInt64 :=
  let z := (z ^^^ (z >>> 30)) * 0xBF58476D1CE4E5B9
  let z := (z ^^^ (z >>> 27)) * 0x94D049BB133111EB
  z ^^^ (z >>> 31)

/-- The generator of a seed and a name. -/
def ofSeed (seed : UInt64) (name : String) : Noise :=
  ⟨name.toList.foldl (fun h c => mix (h ^^^ c.val.toUInt64) + increment) (mix (seed + increment))⟩

/-- The next number of the open interval from zero to one, in steps of `2 ^ -32`. -/
def uniform (noise : Noise) : Float × Noise :=
  let state := noise.state + increment
  (((mix state >>> 32).toNat.toFloat + 0.5) / 4294967296.0, ⟨state⟩)

/-- The next normal deviate. -/
def normal (noise : Noise) : Float × Noise :=
  let (u, noise) := noise.uniform
  let (v, noise) := noise.uniform
  (Float.sqrt (-2.0 * Float.log u) * Float.cos (6.283185307179586 * v), noise)

end Noise

/-! ## Curves -/

/-- The points of a curve with noise. -/
def samplesFrom (sigma : Float) (points : List (Float × Float)) (noise : Noise) : List Sample :=
  let step (point : Float × Float) : StateM Noise Sample := fun noise =>
    let (z, noise) := noise.normal
    (⟨point.1, point.2, point.2 + (0.0 + sigma * z), sigma⟩, noise)
  ((points.mapM step).run noise).1

/-- The noisy points of a curve, which needs as many values as times. -/
def Curve.simulate (sigma : Float) (seed : UInt64) (curve : Curve) : Except Failure SampledRun :=
  if curve.times.length = curve.values.length then
    .ok ⟨curve.run, samplesFrom sigma (curve.times.zip curve.values) (.ofSeed seed curve.run)⟩
  else .error (.unevenRun curve.run)

/-- The noisy points of some curves. -/
def simulate (curves : List Curve) (sigma : Float) (seed : UInt64) :
    Except Failure (List SampledRun) :=
  if sigma.isFinite && decide (0.0 ≤ sigma) then curves.mapM (Curve.simulate sigma seed)
  else .error (.invalidSigma sigma)

end MuonSpin
