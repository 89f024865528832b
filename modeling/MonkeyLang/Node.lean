import MonkeyLang.Token

/-!
# Trees of programs

A parsed program is a tree of *nodes*.  Each node keeps the token that it was read from, so that a
diagnostic or a dump can point back at the text.

There is one type of nodes.  The grammar puts statements and expressions in different places, and
every tree that the parser builds keeps to that; but rendering and evaluation make sense of any node
in any place, and trees that are put together by hand use this.  So the grammar's distinction is a
property of some trees and no type.

The statements of a conditional or a function literal are written between braces.  These nodes keep
the token of each opening brace next to the statements behind it, so that all their parts are again
lists of nodes; `Node.block` is such a braced list standing alone.

`Node.foreign` is a node that the language does not know: one that a tool for an extended language
has put into a tree.  It has a name and a text, and nothing else can be done with it: rendering and
evaluation refuse it.

* `Node.mapTokens` changes the tokens and nothing else.  Two trees are equal up to the places of
  their tokens when `mapTokens Token.unplaced` makes them equal.
* `Node.same` decides that, and `Node.same_iff` says so.
-/

set_option autoImplicit false

namespace MonkeyLang

/-! ## Nodes -/

/-- A name in a place where nothing but a name can stand, with its token. -/
structure Identifier where
  token : Token
  name : String
  deriving DecidableEq, Repr, Inhabited

/-- The nodes of a program tree. -/
inductive Node where
  /-- A whole program: its statements. -/
  | program (statements : List Node)
  /-- A name that is referred to. -/
  | reference (identifier : Identifier)
  | integer (token : Token) (value : Int)
  | boolean (token : Token) (value : Bool)
  /-- An operator in front of its one operand. -/
  | unary (token : Token) (operator : String) (operand : Node)
  /-- An operator between its two operands. -/
  | binary (token : Token) (left : Node) (operator : String) (right : Node)
  /-- A conditional without an alternative. -/
  | ifThen (token : Token) (condition : Node) (brace : Token) (body : List Node)
  /-- A conditional with an alternative. -/
  | ifThenElse (token : Token) (condition : Node) (brace : Token) (body : List Node)
      (elseBrace : Token) (elseBody : List Node)
  | function (token : Token) (parameters : List Identifier) (brace : Token) (body : List Node)
  | call (token : Token) (callee : Node) (arguments : List Node)
  /-- The statement that binds a name. -/
  | binding (token : Token) (identifier : Identifier) (value : Node)
  /-- The statement that leaves a function with a value. -/
  | result (token : Token) (value : Node)
  /-- An expression standing as a statement. -/
  | expression (token : Token) (inner : Node)
  /-- Statements between braces. -/
  | block (token : Token) (statements : List Node)
  /-- A node that is none of the language's own. -/
  | foreign (name literal : String)
  deriving Repr, Inhabited

namespace Node

/-- What a node is, in one word. -/
def kind : Node → String
  | program .. => "Program"
  | reference .. => "Identifier"
  | integer .. => "IntegerLiteral"
  | boolean .. => "Boolean"
  | unary .. => "PrefixExpression"
  | binary .. => "InfixExpression"
  | ifThen .. | ifThenElse .. => "IfExpression"
  | function .. => "FunctionLiteral"
  | call .. => "CallExpression"
  | binding .. => "LetStatement"
  | result .. => "ReturnStatement"
  | expression .. => "ExpressionStatement"
  | block .. => "BlockStatement"
  | foreign name _ => name

/-- The text of the token that a node was read from.  A program has the one of its first statement,
and an empty program has none. -/
def literal : Node → String
  | program [] => ""
  | program (first :: _) => first.literal
  | reference identifier => identifier.token.literal
  | integer token _ | boolean token _ | unary token .. | binary token .. | ifThen token ..
  | ifThenElse token .. | function token .. | call token .. | binding token .. | result token _
  | expression token _ | block token _ => token.literal
  | foreign _ literal => literal

/-- Whether a node is an expression standing as a statement.  Such a statement has no end mark of
its own. -/
def isExpression : Node → Bool
  | expression .. => true
  | _ => false

/-- Whether a node is a statement that binds a name. -/
def isBinding : Node → Bool
  | binding .. => true
  | _ => false

end Node

/-! ## Trees up to their tokens -/

/-- The same name with another token. -/
def Identifier.mapToken (f : Token → Token) (identifier : Identifier) : Identifier :=
  ⟨f identifier.token, identifier.name⟩

namespace Node

mutual

/-- The same tree with every token changed. -/
def mapTokens (f : Token → Token) : Node → Node
  | program statements => program (mapTokensAll f statements)
  | reference identifier => reference (identifier.mapToken f)
  | integer token value => integer (f token) value
  | boolean token value => boolean (f token) value
  | unary token operator operand => unary (f token) operator (operand.mapTokens f)
  | binary token left operator right =>
    binary (f token) (left.mapTokens f) operator (right.mapTokens f)
  | ifThen token condition brace body =>
    ifThen (f token) (condition.mapTokens f) (f brace) (mapTokensAll f body)
  | ifThenElse token condition brace body elseBrace elseBody =>
    ifThenElse (f token) (condition.mapTokens f) (f brace) (mapTokensAll f body) (f elseBrace)
      (mapTokensAll f elseBody)
  | function token parameters brace body =>
    function (f token) (parameters.map (·.mapToken f)) (f brace) (mapTokensAll f body)
  | call token callee arguments =>
    call (f token) (callee.mapTokens f) (mapTokensAll f arguments)
  | binding token identifier value =>
    binding (f token) (identifier.mapToken f) (value.mapTokens f)
  | result token value => result (f token) (value.mapTokens f)
  | expression token inner => expression (f token) (inner.mapTokens f)
  | block token statements => block (f token) (mapTokensAll f statements)
  | foreign name literal => foreign name literal

/-- The same trees with every token changed. -/
def mapTokensAll (f : Token → Token) : List Node → List Node
  | [] => []
  | first :: rest => first.mapTokens f :: mapTokensAll f rest

end

end Node

/-- Whether two names agree, with their tokens, wherever they stand. -/
def Identifier.same (first second : Identifier) : Bool :=
  first.token.same second.token && first.name = second.name

/-- Whether two lists of names agree, wherever they stand. -/
def Identifier.sameAll : List Identifier → List Identifier → Bool
  | [], [] => true
  | first :: rest, second :: others => first.same second && sameAll rest others
  | _, _ => false

namespace Node

mutual

/-- Whether two trees agree in everything but the places of their tokens. -/
def same : Node → Node → Bool
  | program statements, program others => sameAll statements others
  | reference identifier, reference other => identifier.same other
  | integer token value, integer other value' => token.same other && value = value'
  | boolean token value, boolean other value' => token.same other && value = value'
  | unary token operator operand, unary other operator' operand' =>
    token.same other && operator = operator' && operand.same operand'
  | binary token left operator right, binary other left' operator' right' =>
    token.same other && left.same left' && operator = operator' && right.same right'
  | ifThen token condition brace body, ifThen other condition' brace' body' =>
    token.same other && condition.same condition' && brace.same brace' && sameAll body body'
  | ifThenElse token condition brace body elseBrace elseBody,
      ifThenElse other condition' brace' body' elseBrace' elseBody' =>
    token.same other && condition.same condition' && brace.same brace' && sameAll body body' &&
      elseBrace.same elseBrace' && sameAll elseBody elseBody'
  | function token parameters brace body, function other parameters' brace' body' =>
    token.same other && Identifier.sameAll parameters parameters' && brace.same brace' &&
      sameAll body body'
  | call token callee arguments, call other callee' arguments' =>
    token.same other && callee.same callee' && sameAll arguments arguments'
  | binding token identifier value, binding other identifier' value' =>
    token.same other && identifier.same identifier' && value.same value'
  | result token value, result other value' => token.same other && value.same value'
  | expression token inner, expression other inner' => token.same other && inner.same inner'
  | block token statements, block other others => token.same other && sameAll statements others
  | foreign name literal, foreign name' literal' => name = name' && literal = literal'
  | _, _ => false

/-- Whether two lists of trees agree in everything but the places of their tokens. -/
def sameAll : List Node → List Node → Bool
  | [], [] => true
  | first :: rest, second :: others => first.same second && sameAll rest others
  | _, _ => false

end

end Node

/-! ### What `same` decides -/

theorem Identifier.same_iff {first second : Identifier} :
    first.same second = true ↔ first.mapToken Token.unplaced = second.mapToken Token.unplaced := by
  simp [Identifier.same, Identifier.mapToken, Token.same_iff]

theorem Identifier.sameAll_iff : ∀ {first second : List Identifier},
    Identifier.sameAll first second = true ↔
      first.map (·.mapToken Token.unplaced) = second.map (·.mapToken Token.unplaced)
  | [], [] => by simp [Identifier.sameAll]
  | [], _ :: _ => by simp [Identifier.sameAll]
  | _ :: _, [] => by simp [Identifier.sameAll]
  | _ :: _, _ :: _ => by
    simp [Identifier.sameAll, Identifier.same_iff, Identifier.sameAll_iff]

namespace Node

mutual

/-- Two trees are the same exactly when they are equal apart from the places of their tokens. -/
theorem same_iff : ∀ (first second : Node),
    first.same second = true ↔ first.mapTokens Token.unplaced = second.mapTokens Token.unplaced
  | program statements, second => by
    cases second <;> simp [same, mapTokens, sameAll_iff statements]
  | reference _, second => by cases second <;> simp [same, mapTokens, Identifier.same_iff]
  | integer .., second => by cases second <;> simp [same, mapTokens, Token.same_iff]
  | boolean .., second => by cases second <;> simp [same, mapTokens, Token.same_iff]
  | unary _ _ operand, second => by
    cases second <;> simp [same, mapTokens, Token.same_iff, same_iff operand, and_assoc]
  | binary _ left _ right, second => by
    cases second <;>
      simp [same, mapTokens, Token.same_iff, same_iff left, same_iff right,
        and_assoc]
  | ifThen _ condition _ body, second => by
    cases second <;>
      simp [same, mapTokens, Token.same_iff, same_iff condition,
        sameAll_iff body, and_assoc]
  | ifThenElse _ condition _ body _ elseBody, second => by
    cases second <;>
      simp [same, mapTokens, Token.same_iff, same_iff condition,
        sameAll_iff body, sameAll_iff elseBody, and_assoc]
  | function _ _ _ body, second => by
    cases second <;>
      simp [same, mapTokens, Token.same_iff, Identifier.sameAll_iff, sameAll_iff body,
        and_assoc]
  | call _ callee arguments, second => by
    cases second <;>
      simp [same, mapTokens, Token.same_iff, same_iff callee,
        sameAll_iff arguments, and_assoc]
  | binding _ _ value, second => by
    cases second <;>
      simp [same, mapTokens, Token.same_iff, Identifier.same_iff, same_iff value,
        and_assoc]
  | result _ value, second => by
    cases second <;> simp [same, mapTokens, Token.same_iff, same_iff value]
  | expression _ inner, second => by
    cases second <;> simp [same, mapTokens, Token.same_iff, same_iff inner]
  | block _ statements, second => by
    cases second <;> simp [same, mapTokens, Token.same_iff, sameAll_iff statements]
  | foreign .., second => by cases second <;> simp [same, mapTokens]

theorem sameAll_iff : ∀ (first second : List Node),
    sameAll first second = true ↔
      mapTokensAll Token.unplaced first = mapTokensAll Token.unplaced second
  | [], second => by cases second <;> simp [sameAll, mapTokensAll]
  | head :: tail, second => by
    cases second <;>
      simp [sameAll, mapTokensAll, same_iff head, sameAll_iff tail]

end

end Node

end MonkeyLang
