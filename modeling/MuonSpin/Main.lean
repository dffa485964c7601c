import MuonSpin.CommandLine.Run
import MuonSpin.CommandLine.Usage
import Std.Time.Format

/-!
# The program

Reads the file of a command and does what `Command.actions` lists.
-/

namespace MuonSpin

/-- The present time with its offset from universal time. -/
def timeStamp : IO String := do
  let now ← Std.Time.Timestamp.now
  let time := Std.Time.PlainDateTime.ofWallTime (now.toWallTime .zero)
  pure (time.format "uuuu-MM-dd'T'HH:mm:ss.SSSSSSSSS" ++ "+00:00")

/-- Reports a failure. -/
def Failure.report (failure : Failure) : IO UInt32 := do
  IO.eprintln failure.message
  pure failure.exitCode.toUInt32

/-- Does one thing after the other, up to a failure. -/
def Action.perform : List Action → IO UInt32
  | [] => pure 0
  | .print text :: rest => do
    IO.print text
    perform rest
  | .write kind path text :: rest => do
    match ← (IO.FS.writeFile path text).toBaseIO with
    | .ok () => perform rest
    | .error e => Failure.report (.cannotCreate kind path (toString e))
  | .fail failure :: _ => failure.report

/-- The text of a file. -/
def FileKind.readText (kind : FileKind) (path : String) : IO (Except Failure String) := do
  match ← (IO.FS.readBinFile path).toBaseIO with
  | .error e => pure (.error (.cannotOpen kind path (toString e)))
  | .ok bytes =>
    match String.fromUTF8? bytes with
    | some text => pure (.ok text)
    | none => pure (.error (.invalidDocument kind))

/-- Runs a command. -/
def Command.run (command : Command) : IO UInt32 := do
  let text ← match command.input with
    | some (kind, path) => kind.readText path
    | none => pure (.ok "")
  match text with
  | .ok text => Action.perform (command.actions text (← timeStamp))
  | .error failure => failure.report

end MuonSpin

/-- Runs the command of a command line. -/
def main (args : List String) : IO UInt32 := do
  match MuonSpin.Invocation.parse args with
  | .ok invocation => invocation.command.run
  | .error e =>
    if e.isAnswered then IO.print e.message else IO.eprint e.message
    pure e.exitCode.toUInt32
