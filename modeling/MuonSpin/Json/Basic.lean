import MuonSpin.Json.Numeral

/-!
# JSON documents

A document is kept as it is written, so that what a reader ignores is checked for its form only.

* `Json`: numbers as numerals, texts as code points, of which some may be halves of surrogate pairs;
* `decodeText`, `encodeText`: a text from its code points, if no half is alone, and back;
* `Json.asText?`, `Json.asFloat?`, `Json.asList?`, …: a document read as a value of a type;
* `Json.fields?`: the values of the fields of a record, which is an object or the list of its
  values; **a field may be absent but not be given twice**.
-/

namespace MuonSpin

/-- The code points of a text. -/
abbrev CodePoints := List Nat

/-- A document. -/
inductive Json where
  | null
  | bool (value : Bool)
  | number (numeral : Numeral)
  | text (points : CodePoints)
  | array (items : List Json)
  | object (members : List (CodePoints × Json))

/-! ## Texts -/

def isHighHalf (n : Nat) : Bool := 0xD800 ≤ n && n < 0xDC00

def isLowHalf (n : Nat) : Bool := 0xDC00 ≤ n && n < 0xE000

/-- The characters of a text, pairs of halves put together. -/
def decodeChars (before : List Char) : CodePoints → Option (List Char)
  | [] => some before.reverse
  | n :: rest =>
    if isHighHalf n then
      match rest with
      | m :: rest =>
        if isLowHalf m then
          decodeChars (Char.ofNat (0x10000 + (n - 0xD800) * 0x400 + (m - 0xDC00)) :: before) rest
        else none
      | [] => none
    else if isLowHalf n then none
    else decodeChars (Char.ofNat n :: before) rest

def decodeText (points : CodePoints) : Option String := (decodeChars [] points).map String.ofList

def encodeText (s : String) : CodePoints := s.toList.map Char.toNat

namespace Json

/-! ## Values -/

def ofText (s : String) : Json := text (encodeText s)

/-- A number, or `null` for what is no finite number. -/
def ofFloat (x : Float) : Json :=
  match Numeral.ofFloat x with
  | some n => number n
  | none => null

def ofList {β : Type} (f : β → Json) (xs : List β) : Json := array (xs.map f)

/-- An object with the given fields. -/
def record (fields : List (String × Json)) : Json :=
  object (fields.map fun field => (encodeText field.1, field.2))

def asText? : Json → Option String
  | text points => decodeText points
  | _ => none

def asFloat? : Json → Option Float
  | number n => n.toFloat?
  | _ => none

def asNat? : Json → Option Nat
  | number n => n.toNat?
  | _ => none

def asInt? : Json → Option Int
  | number n => n.toInt?
  | _ => none

def asList? {β : Type} (f : Json → Option β) : Json → Option (List β)
  | array items => items.mapM f
  | _ => none

/-! ## Records -/

/-- The value of a field, if it is given, or `none` if it is given more than once. -/
def member? (members : List (String × Json)) (name : String) : Option (Option Json) :=
  match members.filter (·.1 == name) with
  | [] => some none
  | [field] => some (some field.2)
  | _ => none

/-- The values of the fields of a record, in the order of the names. -/
def fields? (names : List String) : Json → Option (List (Option Json))
  | object members => do
    let members ← members.mapM fun field => (decodeText field.1).map (·, field.2)
    names.mapM (member? members)
  | array items =>
    if items.length ≤ names.length then
      some (items.map some ++ List.replicate (names.length - items.length) none)
    else none
  | _ => none

/-- A field that has to be given. -/
def required? {β : Type} (f : Json → Option β) (field : Option Json) : Option β := field.bind f

/-- A field with a value for when it is not given. -/
def optional? {β : Type} (f : Json → Option β) (default : β) : Option Json → Option β
  | some json => f json
  | none => some default

end Json

end MuonSpin
