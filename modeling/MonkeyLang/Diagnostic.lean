import MonkeyLang.Token

/-!
# Diagnostics

What is wrong with a program text is reported as a list of *diagnostics*.  Each has a cause and the
place of the token at which it was noticed.

* `Fault` lists the causes, and `Fault.message` words them.
* `Diagnostic.line` is how a diagnostic is shown.
* `SyntaxError` is the refusal of a whole text for its diagnostics, with the file that the text
  comes from if that is known.
-/

set_option autoImplicit false

namespace MonkeyLang

/-- What is wrong at one place of a text. -/
inductive Fault where
  /-- The next token had to be of one kind and is of another. -/
  | expected (wanted got : TokenKind)
  /-- No expression starts with a token of this kind. -/
  | noOpening (kind : TokenKind)
  /-- An integer is too large for a signed word of 64 bits. -/
  | outOfRange (literal : String)
  /-- Anything else, in the words of whoever notices it. -/
  | remark (text : String)
  deriving DecidableEq, Repr, Inhabited

/-- The wording of a fault. -/
def Fault.message : Fault → String
  | expected wanted got => s!"expected next token to be {wanted.shown}, got {got.shown} instead"
  | noOpening kind => s!"no prefix parse function for {kind.shown} found"
  | outOfRange literal => s!"could not parse {literal} as integer"
  | remark text => text

/-- A fault and its place. -/
structure Diagnostic where
  fault : Fault
  place : Position
  deriving DecidableEq, Repr, Inhabited

namespace Diagnostic

/-- The fault, noticed at a token. -/
def on (fault : Fault) (token : Token) : Diagnostic :=
  ⟨fault, token.place⟩

/-- A diagnostic on one line, its place first. -/
def line (diagnostic : Diagnostic) : String :=
  s!"line {diagnostic.place.line}, column {diagnostic.place.column}: " ++ diagnostic.fault.message

end Diagnostic

/-- The refusal of a text. -/
structure SyntaxError where
  diagnostics : List Diagnostic
  file : Option String
  deriving DecidableEq, Repr, Inhabited

/-- The wording of a refusal: all its diagnostics, and the file. -/
def SyntaxError.message (error : SyntaxError) : String :=
  let faults := "; ".intercalate (error.diagnostics.map (·.line))
  let subject := if faults = "" then "invalid syntax" else faults
  match error.file with
  | none => subject
  | some file => subject ++ " in " ++ file

end MonkeyLang
