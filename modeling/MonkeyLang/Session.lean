import MonkeyLang.Run
import MonkeyLang.Text.Blank

/-!
# Interactive sessions

In a session the user types one line after the other.  Each line is a text of its own, with its own
diagnostics, but all are run in one scope, so a line sees what the lines before it have bound.  A
line that is refused, or whose evaluation fails or is given up, does not end the session.  What ends
it is one of the words `exit` and `quit` alone on a line, an interrupt, or the end of the input.

The value of a line is shown unless the line ends with a binding, whose value says nothing; failures
are always shown.

A session is a function of its inputs: `Session.take` says what one input does, and
`Session.transcript` is a whole session with all that it shows.
-/

set_option autoImplicit false

namespace MonkeyLang

/-! ## One line -/

/-- The value of a line as far as it is shown. -/
def shownValue (statements : List Node) (value : Value) : String :=
  let ended := match statements.getLast? with
    | none => false
    | some last => !last.isBinding
  if value.isError || ended then unlines [value.inspect] else ""

/-- What is shown for a line, as far as its evaluation comes to an end, and its value, if it has
one. -/
def reply (debug : Bool) (source : String) : Run → String × Except Halt (Option Value)
  | .refused error => (error.report, .ok none)
  | .evaluated statements result _ =>
    let listed := listingIf debug source statements
    match result with
    | .ok value => (listed ++ shownValue statements value, .ok (some value))
    | .error cause => (listed, .error cause)

/-- The heap after a line. -/
def Run.heapAfter (before : Heap) : Run → Heap
  | refused _ => before
  | evaluated _ _ after => after

/-! ## Sessions -/

/-- Where a session stands. -/
structure Session where
  heap : Heap := .initial
  scope : ScopeId := 0
  /-- Whether the tokens and the tree of each line are shown. -/
  debug : Bool := false
  deriving Inhabited

/-- What a session is given. -/
inductive Input where
  | line (text : String)
  | interrupt
  | ended
  deriving DecidableEq, Repr, Inhabited

/-- What an input does to a session: what it shows, and whether the session goes on. -/
structure Turn where
  shown : String
  after : Session
  goesOn : Bool := true
  deriving Inhabited

namespace Session

/-- What is shown when a session starts. -/
def banner : String :=
  unlines ["Monkey Language Interpreter - REPL", "Type `exit` or `quit` to leave."]

/-- What is shown before each input. -/
def prompt : String := ">> "

/-- The line that a line of input is run from. -/
def file : String := "<stdin>"

/-- Runs a line. -/
def runLine (session : Session) (source : String) : Except Abort Turn := do
  let outcome ← run source file session.scope session.heap
  let after := { session with heap := outcome.heapAfter session.heap }
  return match reply session.debug source outcome with
    | (shown, .ok _) => { shown, after }
    | (shown, .error cause) => { shown := shown ++ unlines [cause.message], after }

/-- What an input does to a session.  The parse of a line may be given up, and then the session is
broken off. -/
def take (session : Session) : Input → Except Abort Turn
  | .interrupt => .ok { shown := "\nInterrupted.\n", after := session, goesOn := false }
  | .ended => .ok { shown := "\n", after := session, goesOn := false }
  | .line source =>
    let word := String.ofList (Text.trim source.toList)
    if word = "exit" || word = "quit" then
      .ok { shown := "", after := session, goesOn := false }
    else if word = "" then .ok { shown := "", after := session }
    else session.runLine source

/-- All that a session shows, how it stands at its end, and why it is broken off if it is. -/
structure Transcript where
  shown : String
  after : Session
  brokenOff : Option Abort := none
  deriving Inhabited

/-- A session from some point on.  Behind the last of the inputs the input ends. -/
def continueWith (session : Session) : List Input → Transcript
  | [] => ⟨prompt ++ "\n", session, none⟩
  | input :: rest =>
    match session.take input with
    | .error cause => ⟨prompt, session, some cause⟩
    | .ok turn =>
      if turn.goesOn then
        let later := turn.after.continueWith rest
        { later with shown := prompt ++ turn.shown ++ later.shown }
      else ⟨prompt ++ turn.shown, turn.after, none⟩

/-- A whole session. -/
def transcript (session : Session) (inputs : List Input) : Transcript :=
  let later := session.continueWith inputs
  { later with shown := banner ++ later.shown }

end Session

end MonkeyLang
