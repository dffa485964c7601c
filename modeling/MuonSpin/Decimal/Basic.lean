/-!
# Decimal text of binary numbers

* `Binary`, `classify`: what the bit pattern of a floating-point number says;
* `roundDiv`: a quotient rounded to the nearest whole number, a tie going as asked;
* `fixedText`: a number with so many decimals. **The exact value is rounded, a tie to the even
  digit**, and a negative number keeps its sign even where only zeros are left.
-/

namespace MuonSpin

/-- The finite number `mantissa * 2 ^ exponent` with a sign. -/
structure Binary where
  negative : Bool
  mantissa : Nat
  exponent : Int

/-- What a floating-point number is. -/
inductive NumberClass where
  | finite (value : Binary)
  | infinite (negative : Bool)
  | undefined

/-- The bit of the sign. -/
def signBit : Nat := 0x8000000000000000

/-- The leading bit of a mantissa, which is left out of the bit pattern unless the exponent is the
least one. -/
def hiddenBit : Nat := 0x10000000000000

/-- Reads the bit pattern of a number. -/
def classify (x : Float) : NumberClass :=
  let bits : Nat := x.toBits.toNat
  let negative := bits / signBit == 1
  let power : Nat := bits / hiddenBit % 2048
  let fraction : Nat := bits % hiddenBit
  if power = 2047 then (if fraction = 0 then .infinite negative else .undefined)
  else if power = 0 then .finite ⟨negative, fraction, -1074⟩
  else .finite ⟨negative, fraction + hiddenBit, Int.ofNat power - 1075⟩

/-- Where a tie goes. -/
inductive Tie where
  | up
  | toEven
  deriving DecidableEq

/-- The whole number nearest to `num / den`. -/
def roundDiv (tie : Tie) (num den : Nat) : Nat :=
  let q := num / den
  let r := num % den
  if 2 * r < den then q
  else if den < 2 * r then q + 1
  else match tie with
    | .up => q + 1
    | .toEven => q + q % 2

namespace Binary

/-- The magnitude as a fraction. -/
def numerator (x : Binary) : Nat := x.mantissa * Nat.pow 2 x.exponent.toNat

def denominator (x : Binary) : Nat := Nat.pow 2 (-x.exponent).toNat

end Binary

/-- The digits of a number of units of the last decimal, with the point in front of the decimals. -/
def pointText (places : Nat) (units : Nat) : String :=
  let digits := Nat.toDigits 10 units
  let digits := List.replicate (places + 1 - digits.length) '0' ++ digits
  let whole := digits.take (digits.length - places)
  if places = 0 then String.ofList whole
  else String.ofList (whole ++ '.' :: digits.drop (digits.length - places))

def signText (negative : Bool) : String := if negative then "-" else ""

/-- A number with so many decimals. -/
def fixedText (places : Nat) (x : Float) : String :=
  match classify x with
  | .undefined => "NaN"
  | .infinite negative => signText negative ++ "inf"
  | .finite b =>
    signText b.negative
      ++ pointText places (roundDiv .toEven (b.numerator * Nat.pow 10 places) b.denominator)

end MuonSpin
