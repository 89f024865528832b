import MonkeyLang.CommandLine.Arguments
import MonkeyLang.CommandLine.Folder
import MonkeyLang.Session
import MonkeyLang.Text.Newline

/-!
# The interpreter as a command

Depending on its arguments the interpreter runs a program that is given as text, runs a script, or
holds a session.  If a program and a script are given, the program is run.

A program or script is run in a scope of its own and its value is shown, whatever its last statement
is.  The exit code is 0, or 1 if the text is refused, cannot be read, fails, or is given up for being
nested too deeply, or 2 if the arguments make no sense.  There are causes for which it breaks off
without an exit code, and `BreakOff` lists them.

A script is a file of text in UTF-8, whose line ends are unified before it is run.

Everything that the command sees of the machine is a value of `Surroundings`, so that the command
itself is a function, `Command.perform`.
-/

set_option autoImplicit false

namespace MonkeyLang

/-- Why a command breaks off without an exit code. -/
inductive BreakOff where
  /-- A parse is given up. -/
  | aborted (cause : Abort)
  /-- A program is given without a text. -/
  | noText
  /-- A script is no text in UTF-8. -/
  | undecodable
  /-- The path of a script has a NUL character in it. -/
  | nullInPath
  deriving DecidableEq, Repr, Inhabited

/-- What a command comes to: what it shows, and its exit code or why it breaks off. -/
structure Ending where
  shown : String
  code : Except BreakOff Nat
  deriving Inhabited

/-- A command that comes to its end. -/
def Ending.finish (shown : String) (code : Nat) : Ending :=
  ⟨shown, .ok code⟩

/-- What a command sees of the machine. -/
structure Surroundings where
  /-- How files are read. -/
  read : String → Except ReadFault ByteArray
  /-- What the user is going to type. -/
  inputs : List Input := []
  /-- Whether the environment asks for the tokens and the tree of what is run. -/
  debug : Bool := false

namespace Command

/-- Whether the environment variable that asks for the tokens and the tree does ask for them: it is
set, and not to nothing. -/
def asksForDebug (setting : Option String) : Bool :=
  match setting with
  | none => false
  | some value => value ≠ ""

/-- What is shown for a text, and the exit code. -/
def conclude (debug : Bool) (source : String) : Run → Ending
  | .refused error => .finish error.report 1
  | .evaluated statements result _ =>
    let listed := listingIf debug source statements
    match result with
    | .ok value => .finish (listed ++ unlines [value.inspect]) (if value.isError then 1 else 0)
    | .error cause => .finish (listed ++ unlines [cause.message]) 1

/-- Runs a text in a scope of its own. -/
def runText (debug : Bool) (source file : String) : Ending :=
  match run source file 0 .initial with
  | .error cause => ⟨"", .error (.aborted cause)⟩
  | .ok outcome => conclude debug source outcome

/-- The text of a script. -/
def decode (bytes : ByteArray) : Option String :=
  (String.fromUTF8? bytes).map fun text => String.ofList (Text.unifyNewlines text.toList)

/-- Runs a script. -/
def runScript (surroundings : Surroundings) (debug : Bool) (path : String) : Ending :=
  if path.contains '\x00' then ⟨"", .error .nullInPath⟩
  else match surroundings.read path with
    | .error fault => .finish (unlines [fault.message path]) 1
    | .ok bytes =>
      match decode bytes with
      | none => ⟨"", .error .undecodable⟩
      | some source => runText debug source path

/-- Holds a session. -/
def holdSession (surroundings : Surroundings) (debug : Bool) : Ending :=
  let transcript := Session.transcript { debug } surroundings.inputs
  match transcript.brokenOff with
  | none => .finish transcript.shown 0
  | some cause => ⟨transcript.shown, .error (.aborted cause)⟩

/-- What is shown to a user who asks for help. -/
def help : String :=
  unlines ["usage: monkey [-h] [-c COMMAND] [--debug] [script]", "",
    "Monkey Language Interpreter. Run with no arguments to enter the REPL.", "",
    "positional arguments:",
    "  script                Path to a Monkey source file to execute", "",
    "options:",
    "  -h, --help            show this help message and exit",
    "  -c COMMAND, --command COMMAND",
    "                        Program passed in as a string",
    "  --debug               Print tokens and AST before evaluation (also enabled",
    "                        by MONKEYDEBUG)"]

/-- Does what the arguments ask for. -/
def perform (surroundings : Surroundings) (arguments : List String) : Ending :=
  match Arguments.read arguments with
  | .error .help => .finish help 0
  | .error .misuse => .finish "" 2
  | .ok found =>
    let debug := found.debug || surroundings.debug
    match found.command?, found.script? with
    | some (.text source), _ => runText debug source "<string>"
    | some .nothing, _ => ⟨"", .error .noText⟩
    | none, some path => runScript surroundings debug path
    | none, none => holdSession surroundings debug

end Command

end MonkeyLang
