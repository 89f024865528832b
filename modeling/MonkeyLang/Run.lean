import MonkeyLang.Evaluation
import MonkeyLang.Node.Dump
import MonkeyLang.Parser.Program

/-!
# Running a text

To run a text is to parse it strictly and, if it has no diagnostics, to evaluate it in some scope.
A text that is refused is not evaluated at all, not even its well-formed statements.

* `run` does this and says what came of it, as a `Run`.
* `SyntaxError.report` and `listing` are what the user is shown besides the value: the diagnostics
  of a refused text, and the tokens and the tree of an accepted one.
-/

set_option autoImplicit false

namespace MonkeyLang

/-! ## Running -/

/-- What comes of a text that is parsed to the end. -/
inductive Run where
  /-- The text is refused. -/
  | refused (error : SyntaxError)
  /-- The statements of the text are evaluated, and the heap is left in some state. -/
  | evaluated (statements : List Node) (result : Except Halt Value) (heap : Heap)
  deriving Inhabited

/-- Evaluates statements as a program.  Whatever comes of it, the heap is what they leave. -/
def evaluateProgram (statements : List Node) (scope : ScopeId) (heap : Heap) :
    Except Halt Value × Heap :=
  match (evaluate depthLimit (.program statements) scope).run heap with
  | .ok value after => (.ok value, after)
  | .error cause after => (.error cause, after)

/-- Runs a text that comes from a file. -/
def run (source file : String) (scope : ScopeId) (heap : Heap) : Except Abort Run :=
  match parseStrictly source (some file) with
  | .error (.aborted cause) => .error cause
  | .error (.malformed error) => .ok (.refused error)
  | .ok statements =>
    let (result, after) := evaluateProgram statements scope heap
    .ok (.evaluated statements result after)

/-! ## What the user is shown -/

/-- Lines of text, each with its line feed. -/
def unlines (texts : List String) : String :=
  String.join (texts.map (· ++ "\n"))

/-- The diagnostics of a refused text, one on each line. -/
def SyntaxError.report (error : SyntaxError) : String :=
  unlines (("Parse errors in " ++ error.file.getD "<input>" ++ ":") ::
    error.diagnostics.map fun diagnostic => "\t" ++ diagnostic.line)

/-- The tokens and the tree of a text. -/
def listing (source : String) (statements : List Node) : String :=
  unlines ["\nTokens:\n", dumpList ((TokenStream.ofSource source).toList.map Token.dump),
    "\nAST:\n", (Node.program statements).dump, " "]

/-- The tokens and the tree of a text, if the user asks for them. -/
def listingIf (debug : Bool) (source : String) (statements : List Node) : String :=
  if debug then listing source statements else ""

end MonkeyLang
