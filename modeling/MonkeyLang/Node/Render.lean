import MonkeyLang.Node

/-!
# Canonical text

Every tree has a canonical text.  It is laid out on one line, every unary and binary expression is
in parentheses, so that no precedence matters, and statements are parted by single spaces.

The one thing to take care of is the end of a statement.  Bindings and results end with a semicolon
of their own.  An expression that stands as a statement has none, so one is put behind it unless it
is the last of its list: without it a following `(` or `-` would be read as part of the expression.

* `Node.render` is the text of any tree.
* `Node.isNative` says that a tree has no foreign node in it.  `Node.render?` gives the text of such
  trees only, since the text of a foreign node means nothing to the language.
-/

set_option autoImplicit false

namespace MonkeyLang

/-- Statements between braces, given the text of the statements. -/
def braced (body : String) : String :=
  if body = "" then "\x7b \x7d" else "\x7b " ++ body ++ " \x7d"

/-- The names of a list, parted by commas. -/
def Identifier.renderAll (identifiers : List Identifier) : String :=
  ", ".intercalate (identifiers.map (·.name))

namespace Node

/-- What is put behind a statement when another one follows. -/
def separator (statement : Node) : String :=
  if statement.isExpression then "; " else " "

mutual

/-- The canonical text of a tree. -/
def render : Node → String
  | program statements => renderStatements statements
  | reference identifier => identifier.name
  | integer _ value => toString value
  | boolean _ value => if value then "true" else "false"
  | unary _ operator operand => "(" ++ operator ++ operand.render ++ ")"
  | binary _ left operator right =>
    "(" ++ left.render ++ " " ++ operator ++ " " ++ right.render ++ ")"
  | ifThen _ condition _ body =>
    "if (" ++ condition.render ++ ") " ++ braced (renderStatements body)
  | ifThenElse _ condition _ body _ elseBody =>
    "if (" ++ condition.render ++ ") " ++ braced (renderStatements body) ++ " else " ++
      braced (renderStatements elseBody)
  | function token parameters _ body =>
    token.literal ++ "(" ++ Identifier.renderAll parameters ++ ") " ++
      braced (renderStatements body)
  | call _ callee arguments => callee.render ++ "(" ++ renderArguments arguments ++ ")"
  | binding token identifier value =>
    token.literal ++ " " ++ identifier.name ++ " = " ++ value.render ++ ";"
  | result token value => token.literal ++ " " ++ value.render ++ ";"
  | expression _ inner => inner.render
  | block _ statements => renderStatements statements
  | foreign _ literal => literal

/-- The canonical text of a list of statements. -/
def renderStatements : List Node → String
  | [] => ""
  | [last] => last.render
  | first :: second :: rest =>
    first.render ++ first.separator ++ renderStatements (second :: rest)

/-- The canonical text of a list of arguments. -/
def renderArguments : List Node → String
  | [] => ""
  | [last] => last.render
  | first :: second :: rest => first.render ++ ", " ++ renderArguments (second :: rest)

end

mutual

/-- Whether a tree is made of the language's own nodes only. -/
def isNative : Node → Bool
  | program statements => allNative statements
  | reference _ | integer .. | boolean .. => true
  | unary _ _ operand => operand.isNative
  | binary _ left _ right => left.isNative && right.isNative
  | ifThen _ condition _ body => condition.isNative && allNative body
  | ifThenElse _ condition _ body _ elseBody =>
    condition.isNative && allNative body && allNative elseBody
  | function _ _ _ body => allNative body
  | call _ callee arguments => callee.isNative && allNative arguments
  | binding _ _ value => value.isNative
  | result _ value => value.isNative
  | expression _ inner => inner.isNative
  | block _ statements => allNative statements
  | foreign .. => false

/-- Whether all trees of a list are made of the language's own nodes only. -/
def allNative : List Node → Bool
  | [] => true
  | first :: rest => first.isNative && allNative rest

end

/-- The canonical text of a tree of the language's own nodes. -/
def render? (node : Node) : Option String :=
  if node.isNative then some node.render else none

/-- The canonical text of a list of statements of the language's own nodes. -/
def renderStatements? (statements : List Node) : Option String :=
  if allNative statements then some (renderStatements statements) else none

end Node

end MonkeyLang
