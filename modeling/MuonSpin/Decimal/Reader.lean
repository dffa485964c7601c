/-!
# Reading decimals

* `digitsValue`, `word?`: the number that decimal digits stand for, and the number a text of digits
  stands for, **if it fits 64 bits**;
* `readDecimal?`: the floating-point number nearest to a decimal with an optional sign, point and
  exponent; `inf`, `infinity` and `nan` in any letter case are numbers too;
* `readNatural?`: a natural number with an optional plus sign that fits 64 bits.
-/

namespace MuonSpin

/-! ## Digits -/

def digitValue (c : Char) : Nat := c.toNat - '0'.toNat

/-- The number that digits stand for. -/
def digitsValue (digits : List Char) : Nat := digits.foldl (fun n c => 10 * n + digitValue c) 0

/-- The least number that does not fit 64 bits. -/
def wordLimit : Nat := 0x10000000000000000

/-- The number that some digits stand for, if there are only digits and it fits 64 bits. -/
def word? (cs : List Char) : Option Nat :=
  if cs.isEmpty || !cs.all Char.isDigit then none
  else if digitsValue cs < wordLimit then some (digitsValue cs) else none

/-! ## Numbers -/

/-- A sign and what follows. -/
def readSign : List Char → Bool × List Char
  | '-' :: rest => (true, rest)
  | '+' :: rest => (false, rest)
  | rest => (false, rest)

/-- Digits at the start of a text, and the rest. -/
def readDigits (cs : List Char) : List Char × List Char :=
  (cs.takeWhile Char.isDigit, cs.dropWhile Char.isDigit)

/-- An exponent up to the end of a text; none is zero. -/
def readExponent? : List Char → Option Int
  | [] => some 0
  | c :: rest =>
    if c = 'e' ∨ c = 'E' then
      let (negative, rest) := readSign rest
      let (digits, rest) := readDigits rest
      if digits.isEmpty || !rest.isEmpty then none
      else some (if negative then -(digitsValue digits) else digitsValue digits)
    else none

/-- An exponent beyond which every number of so many digits is infinite or zero. -/
def clampExponent (digits : Nat) (exponent : Int) : Int :=
  max (-(digits + 400 : Int)) (min 400 exponent)

/-- The number `n * 10 ^ exponent`. -/
def floatOf (n : Nat) (exponent : Int) : Float :=
  if 0 ≤ exponent then Float.ofScientific n false exponent.toNat
  else Float.ofScientific n true (-exponent).toNat

/-- The magnitude of a decimal. -/
def readMagnitude? (cs : List Char) : Option Float :=
  let (whole, rest) := readDigits cs
  let (fraction, rest) := match rest with
    | '.' :: rest => readDigits rest
    | rest => ([], rest)
  if whole.isEmpty && fraction.isEmpty then none
  else (readExponent? rest).map fun exponent =>
    floatOf (digitsValue (whole ++ fraction))
      (clampExponent (whole.length + fraction.length) (exponent - fraction.length))

/-- The number nearest to a decimal. -/
def readDecimal? (s : String) : Option Float :=
  let (negative, cs) := readSign s.toList
  let word := String.ofList (cs.map Char.toLower)
  let magnitude :=
    if word = "inf" ∨ word = "infinity" then some (1.0 / 0.0)
    else if word = "nan" then some (0.0 / 0.0)
    else readMagnitude? cs
  magnitude.map fun x => if negative then -x else x

/-- A natural number that fits 64 bits. -/
def readNatural? (s : String) : Option Nat :=
  match s.toList with
  | '+' :: rest => word? rest
  | cs => word? cs

end MuonSpin
