/-!
# Scalars

The relaxation functions are written once, for any type of numbers. Ring operations, division,
comparisons and numerals come from the usual separate classes; what they do not offer comes from
`Elementary`. Read with `Float` the functions are the program; read with an ordered field they are
the formulas in exact arithmetic, with `exp`, `sin` and the other transcendental functions as given
functions.

* `Elementary`: exponential, trigonometric functions, rounding and the passage to table indices;
* `nearestWhole`: a floating-point number rounded to a whole one, by its index and the part behind it;
* `square`, `cube`, `larger`, `smaller`, `between`, `total`: small operations made of these;
* **an index saturates**: a number past the last index has `maxIndex` as its index, and an index
  that has reached `maxIndex` has no successor (`successor?`).
-/

namespace MuonSpin

/-- The operations on numbers that the relaxation functions need beside the arithmetic ones. -/
class Elementary (α : Type) where
  exp : α → α
  sin : α → α
  cos : α → α
  sqrt : α → α
  /-- `pow x y` is `x` to the power `y`. -/
  pow : α → α → α
  abs : α → α
  floor : α → α
  ceil : α → α
  /-- The nearest whole number, a half going away from zero. -/
  round : α → α
  /-- Neither infinite nor undefined. -/
  isFinite : α → Bool
  isInfinite : α → Bool
  /-- A number above all others, where there is one. -/
  infinity : α
  /-- The index a number stands for: its whole part, at least zero and at most `maxIndex`. -/
  toIndex : α → Nat
  /-- The largest index, if indices are bounded. -/
  maxIndex : Option Nat

instance natCastFloat : NatCast Float := ⟨Float.ofNat⟩

/-- The whole number nearest to a number that is not negative, a half going up. From `2 ^ 52` on every
number is whole. -/
@[inline] def nearestAbove (x : Float) : Float :=
  if x < 4503599627370496.0 then
    let n := x.toUInt64
    if x - n.toFloat < 0.5 then n.toFloat else (n + 1).toFloat
  else x

/-- The whole number nearest to a number, a half going away from zero. -/
@[inline] def nearestWhole (x : Float) : Float :=
  if x < 0 then -nearestAbove (-x) else nearestAbove x

instance elementaryFloat : Elementary Float where
  exp := Float.exp
  sin := Float.sin
  cos := Float.cos
  sqrt := Float.sqrt
  pow := Float.pow
  abs := Float.abs
  floor := Float.floor
  ceil := Float.ceil
  round := nearestWhole
  isFinite := Float.isFinite
  isInfinite := Float.isInf
  infinity := 1.0 / 0.0
  toIndex x := x.toUInt64.toNat
  maxIndex := some 0xFFFFFFFFFFFFFFFF

open Elementary

section Operations

variable {α : Type} [Add α] [Sub α] [Mul α] [Neg α] [Zero α] [LT α] [DecidableLT α] [BEq α]
  [Elementary α]

@[inline] def square (x : α) : α := x * x

@[inline] def cube (x : α) : α := x * x * x

/-- The larger of two numbers; one that differs from itself does not count. -/
@[inline] def larger (a b : α) : α := if a == a then (if a < b then b else a) else b

/-- The smaller of two numbers; one that differs from itself does not count. -/
@[inline] def smaller (a b : α) : α := if a == a then (if b < a then b else a) else b

/-- The number of the interval from `lo` to `hi` that is nearest to `x`. -/
@[inline] def between (lo hi x : α) : α := if x < lo then lo else if hi < x then hi else x

/-- A number with a part behind the point; also one that is infinite or undefined. -/
@[inline] def hasFraction (x : α) : Bool := !(x - floor x == 0)

/-- The sum of a list from the left; the empty sum is the negative zero, which adds nothing to any
number. -/
@[specialize] def total (xs : List α) : α := xs.foldl (· + ·) (-0)

variable (α) in
/-- The index behind `i`. An index without one stops the computation, since indices are checked for
overflow; other checks that only some builds make, such as that of an evaluation for the number of its
parameters, are left out. -/
@[inline] def successor? (i : Nat) : Option Nat := if maxIndex α = some i then none else some (i + 1)

end Operations

end MuonSpin
