import MuonSpin.Json.Basic

/-!
# Reading JSON

* `JsonReader.value`: a document at the start of a text, and the rest of the text;
* `Json.parse?`: the document that a text consists of, but for blanks around it.

The recursion takes fuel, of which a text needs no more than two units for every character.
-/

namespace MuonSpin

namespace JsonReader

def isBlank (c : Char) : Bool := c == ' ' || c == '\n' || c == '\t' || c == '\r'

def skip (cs : List Char) : List Char := cs.dropWhile isBlank

/-- The text behind an expected beginning. -/
def expect : List Char → List Char → Option (List Char)
  | [], rest => some rest
  | c :: word, d :: rest => if c = d then expect word rest else none
  | _ :: _, [] => none

/-! ## Numbers -/

/-- The digits of a whole part, without leading zeros. -/
def wholePart (cs : List Char) : Option (List Char × List Char) :=
  match cs with
  | '0' :: rest => some (['0'], rest)
  | _ =>
    let digits := cs.takeWhile Char.isDigit
    if digits.isEmpty then none else some (digits, cs.dropWhile Char.isDigit)

/-- At least one digit. -/
def someDigits (cs : List Char) : Option (List Char × List Char) :=
  let digits := cs.takeWhile Char.isDigit
  if digits.isEmpty then none else some (digits, cs.dropWhile Char.isDigit)

def fractionPart (cs : List Char) : Option (Option (List Char) × List Char) :=
  match cs with
  | '.' :: rest => (someDigits rest).map fun (digits, rest) => (some digits, rest)
  | _ => some (none, cs)

def exponentSign : List Char → Bool × List Char
  | '-' :: rest => (true, rest)
  | '+' :: rest => (false, rest)
  | rest => (false, rest)

def exponentPart (cs : List Char) : Option (Option Exponent × List Char) :=
  match cs with
  | c :: rest =>
    if c = 'e' ∨ c = 'E' then
      let (negative, rest) := exponentSign rest
      (someDigits rest).map fun (digits, rest) => (some ⟨negative, digits⟩, rest)
    else some (none, cs)
  | [] => some (none, [])

/-- A number without its sign. -/
def numeral (negative : Bool) (cs : List Char) : Option (Json × List Char) := do
  let (whole, rest) ← wholePart cs
  let (fraction, rest) ← fractionPart rest
  let (exponent, rest) ← exponentPart rest
  pure (.number ⟨negative, whole, fraction, exponent⟩, rest)

/-! ## Texts -/

def hexValue? (c : Char) : Option Nat :=
  if c.isDigit then some (c.toNat - '0'.toNat)
  else if 'a' ≤ c ∧ c ≤ 'f' then some (c.toNat - 'a'.toNat + 10)
  else if 'A' ≤ c ∧ c ≤ 'F' then some (c.toNat - 'A'.toNat + 10)
  else none

/-- Four hexadecimal digits. -/
def hexFour? : List Char → Option (Nat × List Char)
  | a :: b :: c :: d :: rest => do
    let a ← hexValue? a
    let b ← hexValue? b
    let c ← hexValue? c
    let d ← hexValue? d
    pure (((a * 16 + b) * 16 + c) * 16 + d, rest)
  | _ => none

/-- The code point of an escape of one letter. -/
def escaped? : Char → Option Nat
  | '"' => some 0x22
  | '\\' => some 0x5C
  | '/' => some 0x2F
  | 'b' => some 0x08
  | 'f' => some 0x0C
  | 'n' => some 0x0A
  | 'r' => some 0x0D
  | 't' => some 0x09
  | _ => none

/-- The code points up to the closing quote, behind the ones in `before`, which are reversed. -/
def points : (fuel : Nat) → CodePoints → List Char → Option (CodePoints × List Char)
  | 0, _, _ => none
  | fuel + 1, before, cs =>
    match cs with
    | '"' :: rest => some (before.reverse, rest)
    | '\\' :: 'u' :: rest =>
      match hexFour? rest with
      | some (n, rest) => points fuel (n :: before) rest
      | none => none
    | '\\' :: c :: rest =>
      match escaped? c with
      | some n => points fuel (n :: before) rest
      | none => none
    | c :: rest => if c.toNat < 0x20 ∨ c = '\\' then none else points fuel (c.toNat :: before) rest
    | [] => none

/-! ## Documents -/

mutual

/-- A document at the start of a text. -/
def value : (fuel : Nat) → List Char → Option (Json × List Char)
  | 0, _ => none
  | fuel + 1, cs =>
    match skip cs with
    | '"' :: rest => (points fuel [] rest).map fun (s, rest) => (.text s, rest)
    | '[' :: rest =>
      match skip rest with
      | ']' :: rest => some (.array [], rest)
      | rest => items fuel [] rest
    | '\x7b' :: rest =>
      match skip rest with
      | '\x7d' :: rest => some (.object [], rest)
      | rest => members fuel [] rest
    | '-' :: rest => numeral true rest
    | 't' :: rest => (expect ['r', 'u', 'e'] rest).map (.bool true, ·)
    | 'f' :: rest => (expect ['a', 'l', 's', 'e'] rest).map (.bool false, ·)
    | 'n' :: rest => (expect ['u', 'l', 'l'] rest).map (.null, ·)
    | rest => numeral false rest

/-- The items of an array that has some, behind the ones in `before`, which are reversed. -/
def items : (fuel : Nat) → List Json → List Char → Option (Json × List Char)
  | 0, _, _ => none
  | fuel + 1, before, cs =>
    match value fuel cs with
    | none => none
    | some (item, rest) =>
      match skip rest with
      | ',' :: rest => items fuel (item :: before) rest
      | ']' :: rest => some (.array (item :: before).reverse, rest)
      | _ => none

/-- The members of an object that has some, behind the ones in `before`, which are reversed. -/
def members : (fuel : Nat) → List (CodePoints × Json) → List Char → Option (Json × List Char)
  | 0, _, _ => none
  | fuel + 1, before, cs =>
    match skip cs with
    | '"' :: rest =>
      match points fuel [] rest with
      | none => none
      | some (key, rest) =>
        match skip rest with
        | ':' :: rest =>
          match value fuel rest with
          | none => none
          | some (item, rest) =>
            match skip rest with
            | ',' :: rest => members fuel ((key, item) :: before) rest
            | '\x7d' :: rest => some (.object ((key, item) :: before).reverse, rest)
            | _ => none
        | _ => none
    | _ => none

end

end JsonReader

/-- The document of a text. -/
def Json.parse? (s : String) : Option Json :=
  let cs := s.toList
  match JsonReader.value (2 * cs.length + 2) cs with
  | some (json, rest) => if (JsonReader.skip rest).isEmpty then some json else none
  | none => none

end MuonSpin
