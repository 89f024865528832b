import MonkeyLang.Diagnostic
import MonkeyLang.Token.Scan

/-!
# Parsers

A parser reads a construct off a stream of tokens.  It is entered with the current token on the
first token of its construct and leaves it on the last one; besides the current token it looks at
the upcoming one and no further.

A parser can stop early in two ways.

* Its construct is malformed.  Then it stops with the one diagnostic that says so, at the place
  where it noticed, and every construct around it up to the enclosing statement stops with it.
  Whoever drops the statement records the diagnostic (`Parser.attempt`), so a dropped statement
  leaves one diagnostic, and what was recorded before it stays.
* The whole parse is given up, for one of the reasons of `Abort`, which are no matter of the
  grammar.  Nobody catches this.

A parser is a function on `ParserState`, and the state is there after either kind of stop.
-/

set_option autoImplicit false

namespace MonkeyLang

/-! ## States and stops -/

/-- What a parser works on: the tokens that are left, and the diagnostics so far, the oldest first. -/
structure ParserState where
  window : TokenStream
  diagnostics : List Diagnostic := []
  deriving DecidableEq, Repr, Inhabited

/-- The state with one more diagnostic. -/
def ParserState.record (state : ParserState) (diagnostic : Diagnostic) : ParserState :=
  { state with diagnostics := state.diagnostics ++ [diagnostic] }

/-- Why a parse is given up. -/
inductive Abort where
  /-- An integer has so many digits that it is not even read. -/
  | overlong (digits : Nat)
  /-- An integer was to be read where the text is none. -/
  | notNumeral (literal : String)
  /-- The parse would go on for ever without reading a token. -/
  | endless
  deriving DecidableEq, Repr, Inhabited

/-- The most digits that an integer literal may have to be read at all. -/
def digitLimit : Nat := 4300

/-- The wording of a reason to give up.  A text that is no numeral is shown in quotes, cut after 200
characters. -/
def Abort.message : Abort → String
  | overlong digits =>
    s!"Exceeds the limit ({digitLimit} digits) for integer string conversion: value has " ++
      s!"{digits} digits; use sys.set_int_max_str_digits() to increase the limit"
  | notNumeral literal =>
    "invalid literal for int() with base 10: " ++
      String.ofList ((Text.quote literal).toList.take 200)
  | endless => "the text would be parsed for ever"

/-- Why a parser stops early. -/
inductive Stop where
  /-- The construct at hand is malformed. -/
  | malformed (diagnostic : Diagnostic)
  /-- The whole parse is given up. -/
  | abort (cause : Abort)
  deriving DecidableEq, Repr, Inhabited

/-- A parser of constructs that are read as values of a type. -/
abbrev Parser (α : Type) : Type :=
  EStateM Stop ParserState α

namespace Parser

/-! ## The window -/

/-- The current token. -/
def current : Parser Token := do
  return (← get).window.current

/-- The token after the current one. -/
def upcoming : Parser Token := do
  return (← get).window.upcoming

/-- Makes the upcoming token the current one. -/
def advance : Parser Unit :=
  modify fun state => { state with window := state.window.advance }

/-- How many tokens are left, the end of the text not counted.  Every loop of the parser reads a
token in each round, so this bounds its rounds. -/
def remaining : Parser Nat := do
  return (← get).window.ahead.length

/-! ## Stopping -/

/-- Stops because of a fault that is noticed at a token. -/
def fail {α : Type} (fault : Fault) (token : Token) : Parser α :=
  throw (.malformed (.on fault token))

/-- Gives the parse up. -/
def giveUp {α : Type} (cause : Abort) : Parser α :=
  throw (.abort cause)

/-- Advances onto the upcoming token if it has the wanted kind, and fails on it otherwise. -/
def expect (wanted : TokenKind) : Parser Unit := do
  let token ← upcoming
  if token.kind = wanted then advance else fail (.expected wanted token.kind) token

/-- Runs a parser to its end even if its construct is malformed.  In that case the diagnostic goes
on record and there is no result. -/
def attempt {α : Type} (parser : Parser α) : Parser (Option α) := fun state =>
  match parser state with
  | .ok result after => .ok (some result) after
  | .error (.malformed diagnostic) after => .ok none (after.record diagnostic)
  | .error (.abort cause) after => .error (.abort cause) after

/-- Moves on to the next semicolon, to a token of one of the given kinds, or to the end of the
text, whichever comes first.  The current token counts. -/
def skipTo (kinds : List TokenKind) : Parser Unit :=
  modify fun state =>
    { state with window.ahead := state.window.ahead.dropWhile fun token =>
        !(token.kind = .semicolon || token.kind ∈ kinds) }

/-! ## Running -/

/-- What a parser leaves behind when it is run for itself: its result, if its construct is well
formed, or the reason why the parse was given up; and the state after it, in which a malformed
construct is on record. -/
def settle {α : Type} (parser : Parser α) (state : ParserState) :
    Except Abort (Option α) × ParserState :=
  match parser state with
  | .ok result after => (.ok (some result), after)
  | .error (.malformed diagnostic) after => (.ok none, after.record diagnostic)
  | .error (.abort cause) after => (.error cause, after)

end Parser

end MonkeyLang
