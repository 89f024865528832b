import MonkeyLang.CommandLine.Command

/-!
# The executable

The outer layer around `MonkeyLang.Command.perform`: it fetches the arguments, the environment and
the script, prints what is to be shown, and exits.  A session is held here input by input, so that
each answer is shown before the next line is typed.
-/

set_option autoImplicit false

namespace MonkeyLang
namespace Command

/-- Reads the file at a path. -/
def readFile (path : String) : IO (Except ReadFault ByteArray) := do
  try
    return .ok (← IO.FS.readBinFile path)
  catch
    | .inappropriateType _ code _ => return .error (if code = 20 then .notFolder else .folder)
    | .invalidArgument _ 36 _ => return .error .tooLong
    | _ => return .error .missing

/-- Holds a session with the user. -/
partial def converse (session : Session) (input output : IO.FS.Stream) : IO (Except BreakOff Nat) := do
  output.putStr Session.prompt
  output.flush
  let typed ← input.getLine
  let given : Input :=
    if typed.isEmpty then .ended
    else if typed.endsWith "\n" then .line (typed.dropEnd 1).toString
    else .line typed
  match session.take given with
  | .error cause => return .error (.aborted cause)
  | .ok turn =>
    output.putStr turn.shown
    if turn.goesOn then converse turn.after input output else return .ok 0

/-- The exit code, after the reason for a missing one is reported. -/
def exitCode : Except BreakOff Nat → IO UInt32
  | .ok code => return UInt32.ofNat code
  | .error cause => do
    let words := match cause with
      | .aborted cause => cause.message
      | .noText => "the program has no text"
      | .undecodable => "the script is not in UTF-8"
      | .nullInPath => "embedded null byte"
    (← IO.getStderr).putStrLn words
    return 1

end Command
end MonkeyLang

section

open MonkeyLang

/-- The interpreter. -/
def main (arguments : List String) : IO UInt32 := do
  let debug := Command.asksForDebug (← IO.getEnv "MONKEYDEBUG")
  let output ← IO.getStdout
  match Arguments.read arguments with
  | .error .misuse =>
    (← IO.getStderr).putStr Command.help
    return 2
  | .ok { script? := none, command? := none, debug := asked } =>
    output.putStr Session.banner
    Command.exitCode (← Command.converse { debug := debug || asked } (← IO.getStdin) output)
  | .ok { script? := some path, .. } =>
    let contents ← Command.readFile path
    let ending := Command.perform { read := fun _ => contents, debug } arguments
    output.putStr ending.shown
    Command.exitCode ending.code
  | _ =>
    let ending := Command.perform { read := fun _ => .error .missing, debug } arguments
    output.putStr ending.shown
    Command.exitCode ending.code

end
