import MuonSpin.CommandLine.Options

/-!
# Usage

The answer to a command line that gives no command.

* `UsageError.isAnswered`: help or the version was asked for, which is no failure;
* `UsageError.exitCode`, `UsageError.message`: the exit code and the text.
-/

namespace MuonSpin

/-- The name and the version of the program. -/
def versionText : String := "musrth 0.1.0\n"

/-- How the program is called. -/
def usageText : String :=
  "Usage: musrth [-v] <COMMAND>\n\n"
    ++ "  eval     -m <MODEL> [--export <CSV>] [--export-curve <JSON>] [--plot] [SIZE]\n"
    ++ "  simulate -m <MODEL> -o <CSV> [--sigma <SIGMA>] [--seed <SEED>] [--plot] [SIZE]\n"
    ++ "  kernels\n"
    ++ "  tidy     -m <MODEL>\n"
    ++ "  plot     --curve <JSON> [SIZE]\n\n"
    ++ "SIZE is [--width <WIDTH>] [--height <HEIGHT>].\n"

namespace UsageError

/-- What was asked for can be answered. -/
def isAnswered (e : UsageError) : Bool := e == displayHelp || e == displayVersion

def exitCode (e : UsageError) : Nat := if e.isAnswered then 0 else 2

/-- What is wrong, in words. -/
def reason : UsageError → String
  | missingRequiredArgument => "a required option is missing"
  | missingSubcommand => "a command is missing"
  | unknownArgument => "an argument is not known"
  | invalidSubcommand => "the command is not known"
  | invalidValue => "the value of an option is missing"
  | valueValidation => "the value of an option is not valid"
  | argumentConflict => "an option is given twice"
  | tooManyValues => "an option takes no value"
  | displayHelp | displayVersion | displayHelpOnMissingSubcommand => ""

/-- The text of the answer. -/
def message : UsageError → String
  | displayVersion => versionText
  | displayHelp | displayHelpOnMissingSubcommand => usageText
  | e => "error: " ++ e.reason ++ "\n\n" ++ usageText

end UsageError

end MuonSpin
