import MuonSpin.CommandLine.Options

/-!
# Commands

* `Command`: the commands with their options; `Invocation`: a command and whether it is verbose;
* `Invocation.parse`: the invocation of a command line, or what is wrong with it. Options in front of
  the command are read first, then the command's own; **`-v` may stand on both sides**.
-/

namespace MuonSpin

/-- The size of a plot in characters. -/
structure PlotSize where
  width : Nat
  height : Nat

/-- What the program can be asked for. -/
inductive Command where
  /-- Evaluate a model, write its curves and plot them. -/
  | eval (model : String) (csv curveFile : Option String) (plot : Bool) (size : PlotSize)
  /-- Simulate measurements of a model. -/
  | simulate (model : String) (sigma : Float) (seed : UInt64) (out : String) (plot : Bool)
    (size : PlotSize)
  /-- List the kernels. -/
  | kernels
  /-- Print the theory block of a model in its canonical layout. -/
  | tidy (model : String)
  /-- Plot a curve file. -/
  | plot (curve : String) (size : PlotSize)

structure Invocation where
  command : Command
  verbose : Bool

/-- The names of the commands. -/
inductive CommandName where
  | eval
  | simulate
  | kernels
  | tidy
  | plot
  deriving DecidableEq

namespace CommandName

def ofText? : String → Option CommandName
  | "eval" => some eval
  | "simulate" => some simulate
  | "kernels" => some kernels
  | "tidy" => some tidy
  | "plot" => some plot
  | _ => none

def verboseOption : OptionSpec := ⟨"verbose", some 'v', .flag⟩

def helpOption : OptionSpec := ⟨"help", some 'h', .help⟩

def versionOption : OptionSpec := ⟨"version", some 'V', .version⟩

def modelOption : OptionSpec := ⟨"model", some 'm', .path⟩

/-- The options about plots. -/
def sizeOptions : List OptionSpec := [⟨"width", none, .natural⟩, ⟨"height", none, .natural⟩]

/-- The options of a command. -/
def options (name : CommandName) : List OptionSpec :=
  [verboseOption, helpOption] ++ match name with
    | eval =>
      [modelOption, ⟨"export", none, .path⟩, ⟨"export-curve", none, .path⟩, ⟨"plot", none, .flag⟩]
        ++ sizeOptions
    | simulate =>
      [modelOption, ⟨"sigma", none, .number⟩, ⟨"seed", none, .natural⟩, ⟨"out", some 'o', .path⟩,
        ⟨"plot", none, .flag⟩] ++ sizeOptions
    | kernels => []
    | tidy => [modelOption]
    | plot => ⟨"curve", none, .path⟩ :: sizeOptions

end CommandName

/-! ## Values of options -/

/-- The options given to a command. -/
abbrev OptionValues := List (String × OptionValue)

namespace OptionValues

def path? (values : OptionValues) (name : String) : Option String :=
  match values.lookup name with
  | some (.path path) => some path
  | _ => none

def required (values : OptionValues) (name : String) : Except UsageError String :=
  match values.path? name with
  | some path => .ok path
  | none => .error .missingRequiredArgument

def naturalD (values : OptionValues) (name : String) (default : Nat) : Nat :=
  match values.lookup name with
  | some (.natural n) => n
  | _ => default

def numberD (values : OptionValues) (name : String) (default : Float) : Float :=
  match values.lookup name with
  | some (.number x) => x
  | _ => default

def isGiven (values : OptionValues) (name : String) : Bool := (values.lookup name).isSome

def size (values : OptionValues) : PlotSize :=
  ⟨values.naturalD "width" 100, values.naturalD "height" 25⟩

end OptionValues

/-- The command of a name and its options. -/
def CommandName.command (name : CommandName) (values : OptionValues) :
    Except UsageError Command := do
  match name with
  | .eval =>
    pure (.eval (← values.required "model") (values.path? "export") (values.path? "export-curve")
      (values.isGiven "plot") values.size)
  | .simulate =>
    pure (.simulate (← values.required "model") (values.numberD "sigma" 0.01)
      (UInt64.ofNat (values.naturalD "seed" 42)) (← values.required "out")
      (values.isGiven "plot") values.size)
  | .kernels => pure .kernels
  | .tidy => pure (.tidy (← values.required "model"))
  | .plot => pure (.plot (← values.required "curve") values.size)

/-! ## Command lines -/

/-- The error of asking for help on the command that the words name. -/
def helpRequest : List String → UsageError
  | [] => .displayHelp
  | [word] =>
    if (CommandName.ofText? word).isSome || word == "help" then .displayHelp else .invalidSubcommand
  | _ => .invalidSubcommand

namespace Invocation

/-- The words behind the name of a command. -/
def parseCommand (name : CommandName) (verbose : Bool) (words : List String) :
    Except UsageError Invocation := do
  let reader ← OptionReader.start.readWords name.options .unknownArgument words
  let values : OptionValues ← reader.finish
  pure ⟨← name.command values, verbose || values.isGiven "verbose"⟩

/-- The end of a command line without a command. -/
def withoutCommand (reader : OptionReader) : UsageError :=
  if reader.values.isEmpty then .displayHelpOnMissingSubcommand else .missingSubcommand

/-- The error of a word that is not a command; two dashes in front of a command are one too many. -/
def strayWord (word : String) : UsageError :=
  if (CommandName.ofText? word).isSome || word == "help" then .unknownArgument
  else .invalidSubcommand

/-- Reads options up to the name of a command. -/
def parseFrom (reader : OptionReader) : List String → Except UsageError Invocation
  | [] => .error (withoutCommand reader)
  | word :: rest =>
    match reader.trailing, CommandName.ofText? word with
    | false, some name => parseCommand name (OptionValues.isGiven reader.values "verbose") rest
    | _, _ =>
      if !reader.trailing && word == "help" then .error (helpRequest rest)
      else
        (reader.readWord [CommandName.verboseOption, CommandName.helpOption,
          CommandName.versionOption] (strayWord word) word).bind fun reader =>
          parseFrom reader rest

/-- The invocation of a command line. -/
def parse (words : List String) : Except UsageError Invocation := parseFrom .start words

end Invocation

end MuonSpin
