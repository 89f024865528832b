import MonkeyLang.Node
import MonkeyLang.Parser.Basic
import MonkeyLang.Parser.Grammar
import MonkeyLang.Text.Decimal

/-!
# Parsing expressions

An expression is read by *precedence climbing*.  `Parser.expressionWith` reads the construct that
the expression opens with.  Then, as long as the upcoming token binds more tightly than a given
threshold, it reads the continuation that this token stands for, with all that is read so far as its
left part (`Parser.climb`).  The right operand of an operator is an expression whose threshold is
that operator's own precedence; so operators of equal precedence group to the left.

The constructs contain expressions and blocks of statements, which contain constructs again.  The
parsers of this file do not call each other in that circle: they get the parsers for the parts from
outside, as `Parts`, and `MonkeyLang.Parser.Program` closes the circle.  So each of them is a short
definition that can be understood by itself.

An integer literal has a value of at most 2 ^ 63 - 1; a larger one is a fault.  A literal of more
than 4300 digits is not even read: the parse is given up.
-/

set_option autoImplicit false

namespace MonkeyLang

/-- The parsers for the parts of a construct. -/
structure Parts where
  /-- An expression whose operators all bind more tightly than the threshold. -/
  expression : Precedence → Parser Node
  /-- A block: the token of its opening brace, and its statements. -/
  block : Parser (Token × List Node)

namespace Parser

/-! ## Constructs without parts -/

/-- A name. -/
def name : Parser Identifier := do
  let token ← current
  return ⟨token, token.literal⟩

/-- A name that is referred to. -/
def reference : Parser Node :=
  return .reference (← name)

/-- A truth value: true on the one reserved word, and false on everything else. -/
def boolean : Parser Node := do
  let token ← current
  return .boolean token (token.kind = .trueWord)

/-- The largest value of an integer literal: 2 ^ 63 - 1. -/
def largestInteger : Nat := 0x7fffffffffffffff

/-- An integer literal. -/
def integer : Parser Node := do
  let token ← current
  match Text.numeralValue? token.literal.toList with
  | none => giveUp (.notNumeral token.literal)
  | some value =>
    if digitLimit < token.literal.length then giveUp (.overlong token.literal.length)
    else if largestInteger < value then fail (.outOfRange token.literal) token
    else return .integer token value

/-! ## Lists in parentheses -/

/-- One or more items parted by commas.  An item is entered on the token before it.  The number
bounds how many items are read. -/
def items {α : Type} (item : Parser α) : Nat → Parser (List α)
  | 0 => giveUp .endless
  | rounds + 1 => do
    let first ← item
    if (← upcoming).kind = .comma then
      advance
      return first :: (← items item rounds)
    else return [first]

/-- A list of items in parentheses, which may be empty.  It is entered on the opening one. -/
def parenthesized {α : Type} (item : Parser α) : Parser (List α) := do
  if (← upcoming).kind = .rparen then
    advance
    return []
  else
    let found ← items item ((← remaining) + 1)
    expect .rparen
    return found

/-- A parameter of a function literal, entered on the token before it. -/
def parameter : Parser Identifier := do
  expect .ident
  name

/-- An argument of a call, entered on the token before it. -/
def argument (parts : Parts) : Parser Node := do
  advance
  parts.expression .lowest

/-! ## Constructs that open an expression -/

/-- An operator and its operand.  The operand is read with the threshold of signs, so it takes the
calls behind it and no operator. -/
def unary (parts : Parts) : Parser Node := do
  let token ← current
  advance
  let operand ← parts.expression .sign
  return .unary token token.literal operand

/-- An expression in parentheses, which leave no node of their own. -/
def group (parts : Parts) : Parser Node := do
  advance
  let inner ← parts.expression .lowest
  expect .rparen
  return inner

/-- A conditional: the condition in parentheses, a block, and maybe an alternative block. -/
def conditional (parts : Parts) : Parser Node := do
  let token ← current
  expect .lparen
  advance
  let condition ← parts.expression .lowest
  expect .rparen
  expect .lbrace
  let (brace, body) ← parts.block
  if (← upcoming).kind = .elseWord then
    advance
    expect .lbrace
    let (elseBrace, elseBody) ← parts.block
    return .ifThenElse token condition brace body elseBrace elseBody
  else return .ifThen token condition brace body

/-- A function literal: its parameters in parentheses, and a block. -/
def function (parts : Parts) : Parser Node := do
  let token ← current
  expect .lparen
  let parameters ← parenthesized parameter
  expect .lbrace
  let (brace, body) ← parts.block
  return .function token parameters brace body

/-- The construct that an expression opens with. -/
def opening (parts : Parts) : Opening → Parser Node
  | .reference => reference
  | .integer => integer
  | .boolean => boolean
  | .unary => unary parts
  | .group => group parts
  | .conditional => conditional parts
  | .function => function parts

/-! ## Constructs that continue an expression -/

/-- An operator and its right operand, entered on the operator. -/
def binary (parts : Parts) (left : Node) : Parser Node := do
  let token ← current
  advance
  let right ← parts.expression token.kind.precedence
  return .binary token left token.literal right

/-- The arguments of a call, entered on the opening parenthesis. -/
def call (parts : Parts) (callee : Node) : Parser Node := do
  let token ← current
  let arguments ← parenthesized (argument parts)
  return .call token callee arguments

/-- The construct that an expression is continued with. -/
def continuation (parts : Parts) : Continuation → Node → Parser Node
  | .binary => binary parts
  | .call => call parts

/-! ## Expressions -/

/-- Continues an expression as long as the upcoming token binds more tightly than the threshold.
The number bounds how many continuations are read. -/
def climb (grammar : Grammar) (parts : Parts) (threshold : Precedence) :
    Nat → Node → Parser Node
  | 0, _ => giveUp .endless
  | rounds + 1, left => do
    let token ← upcoming
    if threshold < token.kind.precedence then
      match grammar.continuation? token.kind with
      | none => return left
      | some kind =>
        advance
        climb grammar parts threshold rounds (← continuation parts kind left)
    else return left

/-- An expression whose operators all bind more tightly than the threshold. -/
def expressionWith (grammar : Grammar) (parts : Parts) (threshold : Precedence) :
    Parser Node := do
  let token ← current
  match grammar.opening? token.kind with
  | none => fail (.noOpening token.kind) token
  | some kind =>
    let left ← opening parts kind
    climb grammar parts threshold ((← remaining) + 1) left

end Parser

end MonkeyLang
