import MonkeyLang.Parser.Expression

/-!
# Parsing statements

A statement binds a name, gives a result, or is an expression.  Each may be closed by a semicolon,
which belongs to it.

A list of statements is read up to its end, whatever is wrong with single statements: a malformed
statement is dropped, with its diagnostic on record, and reading goes on behind the next semicolon
(`Parser.statementsWith`).  Inside a block the skipping stops at a closing brace too, and then the
block ends there.
-/

set_option autoImplicit false

namespace MonkeyLang
namespace Parser

/-- Takes the semicolon that closes a statement, if there is one. -/
def closeStatement : Parser Unit := do
  if (← upcoming).kind = .semicolon then advance

/-- The statement that binds a name. -/
def binding (parts : Parts) : Parser Node := do
  let token ← current
  expect .ident
  let identifier ← name
  expect .assign
  advance
  let value ← parts.expression .lowest
  closeStatement
  return .binding token identifier value

/-- The statement that gives a result. -/
def result (parts : Parts) : Parser Node := do
  let token ← current
  advance
  let value ← parts.expression .lowest
  closeStatement
  return .result token value

/-- An expression standing as a statement. -/
def expressionStatement (parts : Parts) : Parser Node := do
  let token ← current
  let inner ← parts.expression .lowest
  closeStatement
  return .expression token inner

/-- A statement.  Its first token tells which one it is. -/
def statement (parts : Parts) : Parser Node := do
  match (← current).kind with
  | .letWord => binding parts
  | .returnWord => result parts
  | _ => expressionStatement parts

/-- The statements up to a token of one of the `closing` kinds or the end of the text.  The number
bounds how many statements are read, the malformed ones among them. -/
def statementsWith (parts : Parts) (closing : List TokenKind) : Nat → Parser (List Node)
  | 0 => giveUp .endless
  | rounds + 1 => do
    let token ← current
    if token.kind = .eof || token.kind ∈ closing then return []
    else
      match ← attempt (statement parts) with
      | some first =>
        advance
        return first :: (← statementsWith parts closing rounds)
      | none =>
        skipTo closing
        if (← current).kind ∈ closing then return []
        else
          advance
          statementsWith parts closing rounds

/-- A block, entered on its opening brace and left on its closing one. -/
def blockWith (parts : Parts) : Parser (Token × List Node) := do
  let brace ← current
  advance
  let statements ← statementsWith parts [.rbrace] ((← remaining) + 1)
  return (brace, statements)

end Parser
end MonkeyLang
