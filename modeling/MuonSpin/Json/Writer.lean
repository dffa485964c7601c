import MuonSpin.Json.Basic

/-!
# Writing JSON

Documents over several lines, each level two blanks deeper than the one around it.

* `JsonWriter.textChars`: a text in quotes, with quotes, backslashes and control characters escaped;
* `Json.pretty`: a document.
-/

namespace MuonSpin

namespace JsonWriter

def hexDigit (n : Nat) : Char := Nat.digitChar (n % 16)

/-- An escape of four hexadecimal digits. -/
def hexEscape (n : Nat) : List Char :=
  ['\\', 'u', hexDigit (n / 4096), hexDigit (n / 256), hexDigit (n / 16), hexDigit n]

/-- A code point inside quotes. -/
def pointChars (n : Nat) : List Char :=
  match n with
  | 0x22 => ['\\', '"']
  | 0x5C => ['\\', '\\']
  | 0x08 => ['\\', 'b']
  | 0x0C => ['\\', 'f']
  | 0x0A => ['\\', 'n']
  | 0x0D => ['\\', 'r']
  | 0x09 => ['\\', 't']
  | _ =>
    if n < 0x20 ∨ isHighHalf n ∨ isLowHalf n then hexEscape n else [Char.ofNat n]

def textChars (points : CodePoints) : List Char := '"' :: points.flatMap pointChars ++ ['"']

/-- The start of a line at a depth. -/
def newline (depth : Nat) : List Char := '\n' :: List.replicate (2 * depth) ' '

mutual

/-- The characters of a document at a depth. -/
def chars (depth : Nat) : Json → List Char
  | .null => ['n', 'u', 'l', 'l']
  | .bool true => ['t', 'r', 'u', 'e']
  | .bool false => ['f', 'a', 'l', 's', 'e']
  | .number n => n.text
  | .text points => textChars points
  | .array [] => ['[', ']']
  | .array (item :: rest) =>
    '[' :: newline (depth + 1) ++ chars (depth + 1) item ++ moreItems (depth + 1) rest
      ++ newline depth ++ [']']
  | .object [] => ['\x7b', '\x7d']
  | .object (member :: rest) =>
    '\x7b' :: newline (depth + 1) ++ memberChars (depth + 1) member
      ++ moreMembers (depth + 1) rest ++ newline depth ++ ['\x7d']
termination_by structural json => json

/-- The items behind the first one. -/
def moreItems (depth : Nat) : List Json → List Char
  | [] => []
  | item :: rest => ',' :: newline depth ++ chars depth item ++ moreItems depth rest
termination_by structural items => items

/-- A member with its name. -/
def memberChars (depth : Nat) : CodePoints × Json → List Char
  | (name, json) => textChars name ++ ':' :: ' ' :: chars depth json
termination_by structural member => member

/-- The members behind the first one. -/
def moreMembers (depth : Nat) : List (CodePoints × Json) → List Char
  | [] => []
  | member :: rest => ',' :: newline depth ++ memberChars depth member ++ moreMembers depth rest
termination_by structural members => members

end

end JsonWriter

/-- The text of a document over several lines. -/
def Json.pretty (json : Json) : String := String.ofList (JsonWriter.chars 0 json)

end MuonSpin
