import MonkeyLang.Parser.Statement

/-!
# Parsing whole texts

Here the circle of `MonkeyLang.Parser.Expression` is closed.  `Parts.upTo` is the pair of parsers for
expressions and blocks that are nested to a bounded depth.  Every nesting reads a token, so the
number of tokens that are left is a bound that is never met (unless a changed grammar lets the end of
the text open an expression), and `Parser.withParts` takes that one.

* `Parser.program` reads all statements of a text.
* `parse` is the outcome for a source text: the statements that are well formed, and the diagnostics
  of those that are not.
* `parseStrictly` refuses a text that has any diagnostics.
-/

set_option autoImplicit false

namespace MonkeyLang

/-- The parsers for parts that are nested to a bounded depth. -/
def Parts.upTo (grammar : Grammar) : Nat → Parts
  | 0 => ⟨fun _ => Parser.giveUp .endless, Parser.giveUp .endless⟩
  | depth + 1 =>
    { expression := fun threshold state =>
        Parser.expressionWith grammar (upTo grammar depth) threshold state
      block := fun state => Parser.blockWith (upTo grammar depth) state }

namespace Parser

/-- A parser with the parts that the tokens left can need. -/
def withParts {α : Type} (grammar : Grammar) (parser : Parts → Parser α) : Parser α := do
  parser (.upTo grammar ((← remaining) + 1))

/-- An expression whose operators all bind more tightly than the threshold. -/
def expression (grammar : Grammar) (threshold : Precedence) : Parser Node :=
  withParts grammar fun parts => expressionWith grammar parts threshold

/-- All statements of a text. -/
def program (grammar : Grammar) : Parser (List Node) :=
  withParts grammar fun parts => do statementsWith parts [] ((← remaining) + 1)

end Parser

/-! ## Outcomes -/

/-- What a text is read as. -/
structure Parsed where
  /-- The well-formed statements. -/
  statements : List Node
  /-- The diagnostics of the others, in the order in which they were noticed. -/
  diagnostics : List Diagnostic
  deriving Repr, Inhabited

/-- The well-formed statements as one program. -/
def Parsed.program (parsed : Parsed) : Node :=
  .program parsed.statements

/-- The outcome of parsing a stream of tokens. -/
def parseTokens (window : TokenStream) : Except Abort Parsed :=
  match Parser.settle (Parser.program .standard) { window } with
  | (.ok statements?, after) => .ok ⟨statements?.getD [], after.diagnostics⟩
  | (.error cause, _) => .error cause

/-- The outcome of parsing a source text. -/
def parse (source : String) : Except Abort Parsed :=
  parseTokens (.ofSource source)

/-- Why there is no program for a text. -/
inductive Refusal where
  /-- It has diagnostics. -/
  | malformed (error : SyntaxError)
  /-- The parse was given up. -/
  | aborted (cause : Abort)
  deriving DecidableEq, Repr, Inhabited

/-- The statements of a source text, if all of them are well formed. -/
def parseStrictly (source : String) (file : Option String) : Except Refusal (List Node) :=
  match parse source with
  | .error cause => .error (.aborted cause)
  | .ok parsed =>
    if parsed.diagnostics.isEmpty then .ok parsed.statements
    else .error (.malformed ⟨parsed.diagnostics, file⟩)

end MonkeyLang
