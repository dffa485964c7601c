import MuonSpin.Decimal.Basic

/-!
# Shortest decimals

The decimal with the fewest digits among those that read back as a given number, and of these the
nearest one.

* `Neighbourhood`: the numbers that round to a given one, which contain the ends of the interval if
  its mantissa is even;
* `Neighbourhood.onGrid?`: the multiple of a power of ten nearest to the number, if it is in there;
* `shortest`: the first hit on finer and finer grids;
* `plainText`: the shortest decimal without an exponent.
-/

namespace MuonSpin

/-- The number `digits * 10 ^ exponent`. -/
structure Decimal where
  digits : Nat
  exponent : Int
  deriving DecidableEq

/-- The interval around a number in which all numbers round to it: all three in the unit
`1 / denominator`. -/
structure Neighbourhood where
  lower : Nat
  value : Nat
  upper : Nat
  denominator : Nat
  /-- The ends belong to the interval. -/
  closed : Bool

namespace Neighbourhood

/-- The neighbourhood of a number that is not zero. The gap below a power of two is half as wide,
except at the bottom of the exponents. -/
def ofBinary (x : Binary) : Neighbourhood :=
  let scale := Nat.pow 2 (x.exponent - 2).toNat
  let below := if x.mantissa = hiddenBit ∧ -1074 < x.exponent then 1 else 2
  { lower := (4 * x.mantissa - below) * scale
    value := 4 * x.mantissa * scale
    upper := (4 * x.mantissa + 2) * scale
    denominator := Nat.pow 2 (2 - x.exponent).toNat
    closed := x.mantissa % 2 == 0 }

/-- Membership of `n / denominator`. -/
def contains (nb : Neighbourhood) (n : Nat) : Bool :=
  if nb.closed then nb.lower ≤ n && n ≤ nb.upper else nb.lower < n && n < nb.upper

/-- The neighbourhood in multiples of `10 ^ exponent`. -/
def scaled (nb : Neighbourhood) (exponent : Int) : Neighbourhood :=
  let up := Nat.pow 10 (-exponent).toNat
  { nb with
    lower := nb.lower * up
    value := nb.value * up
    upper := nb.upper * up
    denominator := nb.denominator * Nat.pow 10 exponent.toNat }

/-- The whole number nearest to the value, if it is in the neighbourhood; the other one of the two
whole numbers around the value if only this is. -/
def nearestWhole? (tie : Tie) (nb : Neighbourhood) : Option Nat :=
  let low := nb.value / nb.denominator
  match nb.contains (low * nb.denominator), nb.contains ((low + 1) * nb.denominator) with
  | true, true => some (roundDiv tie nb.value nb.denominator)
  | true, false => some low
  | false, true => some (low + 1)
  | false, false => none

/-- The nearest multiple of `10 ^ exponent` in the neighbourhood. -/
def onGrid? (tie : Tie) (nb : Neighbourhood) (exponent : Int) : Option Decimal :=
  ((nb.scaled exponent).nearestWhole? tie).map (⟨·, exponent⟩)

/-- The exponent of the leading digit of the value. -/
def leadingExponent (nb : Neighbourhood) : Int :=
  let length (n : Nat) : Int := (Nat.toDigits 10 n).length
  let guess := length nb.value - length nb.denominator
  let whole := (nb.scaled guess)
  if whole.denominator ≤ whole.value then guess else guess - 1

end Neighbourhood

/-- Ten units of a power of ten are one of the next. -/
def Decimal.carry (d : Decimal) : Decimal :=
  if d.digits = 10 then ⟨1, d.exponent + 1⟩ else d

/-- The shortest decimal that reads back as a number that is not zero. -/
def shortest (tie : Tie) (x : Binary) : Decimal :=
  let nb := Neighbourhood.ofBinary x
  let top := nb.leadingExponent
  match (List.range 17).findSome? fun (n : Nat) => nb.onGrid? tie (top - n) with
  | some d => d.carry
  | none => ⟨0, 0⟩

/-- A decimal without an exponent. -/
def Decimal.positional (d : Decimal) : String :=
  if 0 ≤ d.exponent then pointText 0 (d.digits * Nat.pow 10 d.exponent.toNat)
  else pointText (-d.exponent).toNat d.digits

/-- The shortest text of a number, without an exponent; a tie goes up. -/
def plainText (x : Float) : String :=
  match classify x with
  | .undefined => "NaN"
  | .infinite negative => signText negative ++ "inf"
  | .finite b =>
    signText b.negative ++ if b.mantissa = 0 then "0" else (shortest .up b).positional

end MuonSpin
