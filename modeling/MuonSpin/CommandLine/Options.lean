import MuonSpin.Decimal.Reader

/-!
# Options

Options with a name of several letters behind two dashes and possibly one of a single letter behind
one dash. A value stands behind an equals sign, directly behind the single letter, or in the next
word unless that looks like an option.

* `OptionSpec`, `OptionValue`: what an option is called and takes, and what was given;
* `OptionReader.readWord`: one word of a command line;
* `OptionReader.finish`: the end of it. **The value of an option is checked when the next option is
  recognized or the command line ends**, so that an unknown option right behind it is reported first;
* `UsageError`: what is wrong with a command line.
-/

namespace MuonSpin

/-- Why a command line gives no command. -/
inductive UsageError where
  | missingRequiredArgument
  | missingSubcommand
  | unknownArgument
  | invalidSubcommand
  /-- A value is missing or empty. -/
  | invalidValue
  | valueValidation
  /-- An option is given twice. -/
  | argumentConflict
  | tooManyValues
  | displayHelp
  | displayVersion
  | displayHelpOnMissingSubcommand
  deriving DecidableEq

/-- What an option takes. -/
inductive OptionKind where
  | flag
  | path
  | natural
  | number
  | help
  | version
  deriving DecidableEq

/-- An option. -/
structure OptionSpec where
  long : String
  short : Option Char
  kind : OptionKind
  deriving DecidableEq

namespace OptionSpec

/-- The option takes a value. -/
def takesValue (spec : OptionSpec) : Bool :=
  match spec.kind with
  | .path | .natural | .number => true
  | .flag | .help | .version => false

end OptionSpec

/-- The value of an option. -/
inductive OptionValue where
  | given
  | path (path : String)
  | natural (n : Nat)
  | number (x : Float)

/-- The value of an option that takes one. -/
def OptionKind.readValue (kind : OptionKind) (text : String) : Except UsageError OptionValue :=
  match kind with
  | .path => if text.isEmpty then .error .invalidValue else .ok (.path text)
  | .natural =>
    match readNatural? text with
    | some n => .ok (.natural n)
    | none => .error .valueValidation
  | .number =>
    match readDecimal? text with
    | some x => .ok (.number x)
    | none => .error .valueValidation
  | .flag | .help | .version => .ok .given

/-- An option whose value is still to be checked, or to come. -/
structure PendingOption where
  spec : OptionSpec
  text : Option String

/-- The options read so far. -/
structure OptionReader where
  values : List (String × OptionValue)
  pending : Option PendingOption
  /-- Two dashes were read, behind which there are no options. -/
  trailing : Bool

namespace OptionReader

def start : OptionReader := ⟨[], none, false⟩

/-- Records an option. -/
def record (reader : OptionReader) (spec : OptionSpec) (text : String) :
    Except UsageError OptionReader :=
  match spec.kind with
  | .help => .error .displayHelp
  | .version => .error .displayVersion
  | kind =>
    if (reader.values.lookup spec.long).isSome then .error .argumentConflict
    else (kind.readValue text).map fun value =>
      { reader with values := (spec.long, value) :: reader.values }

/-- Checks and records the pending option. -/
def settle (reader : OptionReader) : Except UsageError OptionReader :=
  match reader.pending with
  | none => .ok reader
  | some ⟨_, none⟩ => .error .invalidValue
  | some ⟨spec, some text⟩ => { reader with pending := none }.record spec text

/-- An option with the value that is attached to it, if there is one. -/
def readOption (reader : OptionReader) (spec : OptionSpec) (attached : Option String) :
    Except UsageError OptionReader := do
  let reader ← reader.settle
  match spec.takesValue, attached with
  | true, none => pure { reader with pending := some ⟨spec, none⟩ }
  | _, text => reader.record spec (text.getD "")

/-- An option by its long name. -/
def readLong (specs : List OptionSpec) (reader : OptionReader) (name : String)
    (attached : Option String) : Except UsageError OptionReader :=
  match specs.find? (·.long == name) with
  | none => .error .unknownArgument
  | some spec =>
    if !spec.takesValue && attached.isSome then .error .tooManyValues
    else reader.readOption spec attached

/-- Options by their letters. -/
def readShort (specs : List OptionSpec) (reader : OptionReader) :
    List Char → Except UsageError OptionReader
  | [] => .ok reader
  | c :: rest =>
    match specs.find? (·.short == some c) with
    | none => .error .unknownArgument
    | some spec =>
      if spec.takesValue then
        reader.readOption spec (match rest with
          | [] => none
          | '=' :: text => some (String.ofList text)
          | text => some (String.ofList text))
      else do
        let reader ← reader.readOption spec none
        readShort specs reader rest

/-- What a word of a command line can be. -/
inductive Word where
  | dashes
  | long (name : String) (attached : Option String)
  | short (letters : List Char)
  | plain

/-- Tells what a word looks like. -/
def Word.ofText (text : String) : Word :=
  match text.toList with
  | ['-', '-'] => dashes
  | '-' :: '-' :: rest =>
    long (String.ofList (rest.takeWhile (· != '='))) (match rest.dropWhile (· != '=') with
      | [] => none
      | _ :: attached => some (String.ofList attached))
  | '-' :: c :: rest => short (c :: rest)
  | _ => plain

/-- Reads a word; `stray` is the error of one that is neither an option nor a value. -/
def readWord (specs : List OptionSpec) (stray : UsageError) (reader : OptionReader)
    (text : String) : Except UsageError OptionReader :=
  if reader.trailing then .error stray
  else match Word.ofText text with
    | .dashes => .ok { reader with trailing := true }
    | .long name attached => reader.readLong specs name attached
    | .short letters => reader.readShort specs letters
    | .plain =>
      match reader.pending with
      | some ⟨spec, none⟩ => .ok { reader with pending := some ⟨spec, some text⟩ }
      | _ => .error stray

/-- Reads all words. -/
def readWords (specs : List OptionSpec) (stray : UsageError) (reader : OptionReader) :
    List String → Except UsageError OptionReader
  | [] => .ok reader
  | text :: rest => (reader.readWord specs stray text).bind fun reader =>
    reader.readWords specs stray rest

/-- The options at the end of a command line. -/
def finish (reader : OptionReader) : Except UsageError (List (String × OptionValue)) :=
  reader.settle.map (·.values)

end OptionReader

end MuonSpin
