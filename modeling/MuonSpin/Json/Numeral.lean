import MuonSpin.Decimal.Reader
import MuonSpin.Decimal.Shortest

/-!
# Numbers of JSON

* `Numeral`: a number as it is written;
* `Numeral.ofFloat`: the shortest numeral of a floating-point number, positional from `1e-5` up to
  below `1e16` and with an exponent elsewhere;
* `Numeral.toFloat?`: the value of a numeral. The digits are gathered in a word of 64 bits, which is
  then scaled by a power of ten; **digits that no longer fit count only by their place**, and a value
  beyond the largest number is refused;
* `Numeral.toNat?`, `Numeral.toInt?`: the value of a numeral without point and exponent, if it fits
  64 bits.
-/

namespace MuonSpin

/-- The exponent of a numeral. -/
structure Exponent where
  negative : Bool
  digits : List Char
  deriving DecidableEq

/-- A number as it is written. -/
structure Numeral where
  negative : Bool
  whole : List Char
  /-- The digits behind the point, if there is one. -/
  fraction : Option (List Char)
  exponent : Option Exponent
  deriving DecidableEq

namespace Numeral

/-! ## Writing -/

def text (n : Numeral) : List Char :=
  let sign := if n.negative then ['-'] else []
  let fraction := match n.fraction with
    | some digits => '.' :: digits
    | none => []
  let exponent := match n.exponent with
    | some e => 'e' :: (if e.negative then ['-'] else []) ++ e.digits
    | none => []
  sign ++ n.whole ++ fraction ++ exponent

/-- The numeral of a whole number. -/
def ofNat (n : Nat) : Numeral := ⟨false, Nat.toDigits 10 n, none, none⟩

/-- The digits with an exponent. -/
def scientific (negative : Bool) (digits : List Char) (exponent : Int) : Numeral :=
  { negative
    whole := digits.take 1
    fraction := if digits.length ≤ 1 then none else some (digits.drop 1)
    exponent := some ⟨exponent < 0, Nat.toDigits 10 exponent.natAbs⟩ }

/-- The numeral of a decimal that is not zero. -/
def ofDecimal (negative : Bool) (d : Decimal) : Numeral :=
  let digits := Nat.toDigits 10 d.digits
  let point := digits.length + d.exponent
  if 16 < point ∨ point ≤ -5 then scientific negative digits (point - 1)
  else if 0 ≤ d.exponent then
    ⟨negative, digits ++ List.replicate d.exponent.toNat '0', some ['0'], none⟩
  else if 0 < point then
    ⟨negative, digits.take point.toNat, some (digits.drop point.toNat), none⟩
  else ⟨negative, ['0'], some (List.replicate (-point).toNat '0' ++ digits), none⟩

/-- The shortest numeral of a number, a tie going to the even digit; only finite numbers have one. -/
def ofFloat (x : Float) : Option Numeral :=
  match classify x with
  | .undefined | .infinite _ => none
  | .finite b =>
    if b.mantissa = 0 then some ⟨b.negative, ['0'], some ['0'], none⟩
    else some (ofDecimal b.negative (shortest .toEven b))

/-! ## Reading -/

/-- Appends digits to a number as long as it fits 64 bits: the number and the digits left. -/
def gather (n : Nat) : List Char → Nat × List Char
  | [] => (n, [])
  | c :: rest =>
    let next := 10 * n + digitValue c
    if next < wordLimit then gather next rest else (n, c :: rest)

/-- A power of ten up to the largest number. -/
def tenTo (n : Nat) : Float := Float.ofScientific 1 false n

/-- The largest power of ten. -/
def largestPower : Nat := 308

/-- A number times a power of ten, or `none` beyond the largest number. Small powers are reached in
steps, at most `fuel` of them. -/
def scale : (fuel : Nat) → Float → Int → Option Float
  | fuel, x, exponent =>
    if exponent.natAbs ≤ largestPower then
      if 0 ≤ exponent then
        let y := x * tenTo exponent.natAbs
        if y.isInf then none else some y
      else some (x / tenTo exponent.natAbs)
    else if x == 0 then some x
    else if 0 ≤ exponent then none
    else match fuel with
      | 0 => some x
      | fuel + 1 => scale fuel (x / tenTo largestPower) (exponent + largestPower)

/-- A gathered number times a power of ten. -/
def scaled (n : Nat) (exponent : Int) : Option Float :=
  scale exponent.natAbs (Float.ofNat n) exponent

/-- The value of an exponent, if it fits 31 bits. -/
def exponentValue? (e : Exponent) : Option Int :=
  let n := digitsValue e.digits
  if n < 0x80000000 then some (if e.negative then -n else n) else none

/-- The magnitude of a numeral with its digits gathered to `n` and their place `place`. -/
def magnitude? (n : Nat) (place : Int) : Option Exponent → Option Float
  | none => scaled n place
  | some e =>
    match exponentValue? e with
    | some power => scaled n (place + power)
    | none => if n ≠ 0 ∧ !e.negative then none else some 0

/-- The digits of a numeral in 64 bits, and the place of the last one. -/
def gathered (n : Numeral) : Nat × Int :=
  let (value, left) := gather 0 n.whole
  match n.fraction with
  | none => (value, left.length)
  | some digits =>
    let (value, unread) := gather value digits
    (value, left.length - (digits.length - unread.length : Nat))

/-- The value of a numeral as a floating-point number. -/
def toFloat? (n : Numeral) : Option Float :=
  let (value, place) := n.gathered
  (magnitude? value place n.exponent).map fun x => if n.negative then -x else x

/-- The value of the digits of a numeral without point and exponent. -/
def wholeValue? (n : Numeral) : Option Nat :=
  match n.fraction, n.exponent with
  | none, none => some (digitsValue n.whole)
  | _, _ => none

/-- The value of a numeral without sign, point and exponent, in 64 bits. -/
def toNat? (n : Numeral) : Option Nat :=
  n.wholeValue?.bind fun v => if n.negative ∨ wordLimit ≤ v then none else some v

/-- The value of the largest negative number of 64 bits with a sign, without its sign. -/
def signedLimit : Nat := 0x8000000000000000

/-- The value of a numeral without point and exponent, in 64 bits with a sign; a negative zero is no
whole number. -/
def toInt? (n : Numeral) : Option Int :=
  n.wholeValue?.bind fun v =>
    if n.negative then (if v = 0 ∨ signedLimit < v then none else some (-v))
    else if signedLimit ≤ v then none else some v

end Numeral

end MuonSpin
