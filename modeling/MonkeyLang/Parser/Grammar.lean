import MonkeyLang.Token.Precedence

/-!
# The grammar of expressions, as two tables

An expression opens with some construct and may be continued by others: in `f(x) + 1` the reference
`f` opens it, the call continues it, and the addition continues what is read so far.  Which
construct it is can be told from one token.  A `Grammar` is the two tables that tell it, one for the
tokens that open an expression and one for those that continue it.

`Grammar.standard` is the language's own.  A tool for an extended language may start from it and
change entries; how tightly a token binds is no part of the tables and does not change with them.
-/

set_option autoImplicit false

namespace MonkeyLang

/-- The constructs that an expression can open with. -/
inductive Opening where
  /-- A name that is referred to. -/
  | reference
  | integer
  /-- One of the two truth values. -/
  | boolean
  /-- An operator in front of its operand. -/
  | unary
  /-- An expression in parentheses. -/
  | group
  | conditional
  /-- A function literal. -/
  | function
  deriving DecidableEq, Repr, Inhabited

/-- The constructs that an expression can be continued with. -/
inductive Continuation where
  /-- An operator and its right operand. -/
  | binary
  /-- A list of arguments in parentheses. -/
  | call
  deriving DecidableEq, Repr, Inhabited

/-- Which tokens open an expression, and which continue one. -/
structure Grammar where
  opening? : TokenKind → Option Opening
  continuation? : TokenKind → Option Continuation

namespace Grammar

/-- The language's own grammar. -/
def standard : Grammar where
  opening?
    | .ident => some .reference
    | .int => some .integer
    | .trueWord | .falseWord => some .boolean
    | .bang | .minus => some .unary
    | .lparen => some .group
    | .ifWord => some .conditional
    | .function => some .function
    | _ => none
  continuation?
    | .plus | .minus | .asterisk | .slash | .eq | .neq | .lt | .lte | .gt | .gte | .land | .lor =>
      some .binary
    | .lparen => some .call
    | _ => none

/-- The grammar with another entry among the openings. -/
def setOpening (grammar : Grammar) (kind : TokenKind) (opening? : Option Opening) : Grammar :=
  { grammar with opening? := fun other => if other = kind then opening? else grammar.opening? other }

/-- The grammar with another entry among the continuations. -/
def setContinuation (grammar : Grammar) (kind : TokenKind) (continuation? : Option Continuation) :
    Grammar :=
  { grammar with
    continuation? := fun other =>
      if other = kind then continuation? else grammar.continuation? other }

/-- Every token that continues an expression in the standard grammar binds it. -/
theorem standard_continuation?_isSome_iff (kind : TokenKind) :
    (standard.continuation? kind).isSome = true ↔ Precedence.lowest < kind.precedence := by
  cases kind <;> decide

end Grammar

end MonkeyLang
