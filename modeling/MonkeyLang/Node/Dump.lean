import MonkeyLang.Node

/-!
# Dumps of trees

A dump shows a whole tree on one line: each node by its kind, with all its parts by name, and each
token with its place.  It is what a reader looks at to see how a text was understood, so nothing is
left out of it, not even the parts that a canonical text does not show.
-/

set_option autoImplicit false

namespace MonkeyLang

/-- A kind with its parts, each with its name. -/
def dumpParts (kind : String) (parts : List (String × String)) : String :=
  kind ++ "(" ++ ", ".intercalate (parts.map fun part => part.1 ++ "=" ++ part.2) ++ ")"

/-- A list of things that are already dumped. -/
def dumpList (items : List String) : String :=
  "[" ++ ", ".intercalate items ++ "]"

/-- The dump of a name. -/
def Identifier.dump (identifier : Identifier) : String :=
  dumpParts "Identifier" [("token", identifier.token.dump), ("value", Text.quote identifier.name)]

/-- The dump of a braced list of statements, given the dumps of the statements. -/
def dumpBlock (brace : Token) (statements : List String) : String :=
  dumpParts "BlockStatement" [("token", brace.dump), ("statements", dumpList statements)]

/-- The dump of a truth value. -/
def dumpBool (value : Bool) : String :=
  if value then "True" else "False"

namespace Node

mutual

/-- The dump of a tree. -/
def dump : Node → String
  | program statements => dumpParts "Program" [("statements", dumpList (dumpAll statements))]
  | reference identifier => identifier.dump
  | integer token value =>
    dumpParts "IntegerLiteral" [("token", token.dump), ("value", toString value)]
  | boolean token value =>
    dumpParts "Boolean" [("token", token.dump), ("value", dumpBool value)]
  | unary token operator operand =>
    dumpParts "PrefixExpression"
      [("token", token.dump), ("operator", Text.quote operator), ("operand", operand.dump)]
  | binary token left operator right =>
    dumpParts "InfixExpression"
      [("token", token.dump), ("left", left.dump), ("operator", Text.quote operator),
        ("right", right.dump)]
  | ifThen token condition brace body =>
    dumpParts "IfExpression"
      [("token", token.dump), ("condition", condition.dump),
        ("consequence", dumpBlock brace (dumpAll body)), ("alternative", "None")]
  | ifThenElse token condition brace body elseBrace elseBody =>
    dumpParts "IfExpression"
      [("token", token.dump), ("condition", condition.dump),
        ("consequence", dumpBlock brace (dumpAll body)),
        ("alternative", dumpBlock elseBrace (dumpAll elseBody))]
  | function token parameters brace body =>
    dumpParts "FunctionLiteral"
      [("token", token.dump), ("parameters", dumpList (parameters.map (·.dump))),
        ("body", dumpBlock brace (dumpAll body))]
  | call token callee arguments =>
    dumpParts "CallExpression"
      [("token", token.dump), ("callee", callee.dump), ("arguments", dumpList (dumpAll arguments))]
  | binding token identifier value =>
    dumpParts "LetStatement"
      [("token", token.dump), ("name", identifier.dump), ("value", value.dump)]
  | result token value =>
    dumpParts "ReturnStatement" [("token", token.dump), ("value", value.dump)]
  | expression token inner =>
    dumpParts "ExpressionStatement" [("token", token.dump), ("expression", inner.dump)]
  | block token statements => dumpBlock token (dumpAll statements)
  | foreign name literal => dumpParts name [("literal", Text.quote literal)]

/-- The dumps of a list of trees. -/
def dumpAll : List Node → List String
  | [] => []
  | first :: rest => first.dump :: dumpAll rest

end

end Node

end MonkeyLang
