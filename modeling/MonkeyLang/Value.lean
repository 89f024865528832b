import MonkeyLang.Node.Render

/-!
# Values

Evaluating a node gives a *value*.  The data of the language are integers, truth values, functions,
and `null`, which stands for no value in particular.  A function is a closure: next to its parameters
and body it holds the scope in which it was made, so that its body sees the names of that scope,
whatever they are bound to by then.

Two more values are no data but signals, and whatever is being evaluated stops at them:

* `returned` is on its way from a `return` statement to the call that it leaves, with the value that
  the call is going to have;
* `error` is on its way from the place where evaluation failed to the end of the program.

Every integer and every function that is made carries a *stamp*, which no other one carries.  It
tells two functions apart that were made from one text in one scope, and so it is what
`Value.identical` goes by.  `Value.agrees` is the looser comparison: integers agree when they are
equal, and errors when they say the same.
-/

set_option autoImplicit false

namespace MonkeyLang

/-! ## Kinds of value -/

/-- The kinds of value. -/
inductive ValueKind where
  | integer | boolean | null | returned | error | function
  deriving DecidableEq, Repr, Inhabited

/-- The name of a kind. -/
def ValueKind.name : ValueKind → String
  | integer => "INTEGER"
  | boolean => "BOOLEAN"
  | null => "NULL"
  | returned => "RETURN_VALUE"
  | error => "ERROR"
  | function => "FUNCTION"

/-! ## Failures -/

/-- Why evaluation fails. -/
inductive Failure where
  /-- The operands of an operator are of different kinds. -/
  | mismatch (left : ValueKind) (operator : String) (right : ValueKind)
  /-- An operator cannot stand in front of an operand of this kind. -/
  | noUnary (operator : String) (operand : ValueKind)
  /-- An operator cannot stand between operands of this kind. -/
  | noBinary (left : ValueKind) (operator : String) (right : ValueKind)
  | divisionByZero
  /-- A name is bound in no scope that can be seen. -/
  | unbound (name : String)
  /-- Something that is no function is called. -/
  | notFunction (kind : ValueKind)
  /-- A function is called with a wrong number of arguments. -/
  | arity (wanted got : Nat)
  /-- Anything else, in the words of whoever notices it. -/
  | remark (text : String)
  deriving DecidableEq, Repr, Inhabited

/-- The wording of a failure. -/
def Failure.message : Failure → String
  | mismatch left operator right => s!"type mismatch: {left.name} {operator} {right.name}"
  | noUnary operator operand => s!"unknown operator: {operator}{operand.name}"
  | noBinary left operator right => s!"unknown operator: {left.name} {operator} {right.name}"
  | divisionByZero => "division by zero"
  | unbound name => s!"identifier not found: {name}"
  | notFunction kind => s!"not a function: {kind.name}"
  | arity wanted got => s!"wrong number of arguments: want={wanted}, got={got}"
  | remark text => text

/-! ## Values -/

/-- The number of a scope. -/
abbrev ScopeId := Nat

/-- What a function is made of. -/
structure Closure where
  parameters : List Identifier
  /-- The token of the brace that opens the body. -/
  brace : Token
  body : List Node
  /-- The scope in which the function was made. -/
  scope : ScopeId
  deriving Repr, Inhabited

/-- The values. -/
inductive Value where
  | integer (stamp : Nat) (value : Int)
  | boolean (value : Bool)
  | null
  | function (stamp : Nat) (closure : Closure)
  /-- A value on its way to the call that it is the value of. -/
  | returned (value : Value)
  /-- A failure on its way to the end of the program. -/
  | error (cause : Failure)
  deriving Repr, Inhabited

namespace Value

/-- The kind of a value. -/
def kind : Value → ValueKind
  | integer .. => .integer
  | boolean _ => .boolean
  | null => .null
  | function .. => .function
  | returned _ => .returned
  | error _ => .error

/-- Whether a value is a signal, at which evaluation stops. -/
def isSignal : Value → Bool
  | returned _ | error _ => true
  | _ => false

/-- Whether a value is a failure. -/
def isError : Value → Bool
  | error _ => true
  | _ => false

/-- Whether a value counts as true in a condition.  All values do except `false` and `null`. -/
def isTruthy : Value → Bool
  | boolean value => value
  | null => false
  | _ => true

/-- What is left of a value at the end of the call that it is the value of. -/
def unwrap : Value → Value
  | returned value => value
  | value => value

/-! ## Comparison -/

/-- Whether two values are one and the same thing.  There is one `null` and one of each truth value;
integers and functions are told apart by their stamps; signals are never the same. -/
def identical : Value → Value → Bool
  | integer first _, integer second _ => first = second
  | boolean first, boolean second => first = second
  | null, null => true
  | function first _, function second _ => first = second
  | _, _ => false

/-- Whether two values mean the same: integers by their value and failures by their wording,
all others if they are identical. -/
def agrees : Value → Value → Bool
  | integer _ first, integer _ second => first = second
  | error first, error second => first.message = second.message
  | first, second => first.identical second

/-! ## Text -/

/-- A value as the user sees it. -/
def inspect : Value → String
  | integer _ value => toString value
  | boolean value => if value then "true" else "false"
  | null => "null"
  | function _ closure =>
    "fn(" ++ Identifier.renderAll closure.parameters ++ ") \x7b\n" ++
      Node.renderStatements closure.body ++ "\n\x7d"
  | returned value => value.inspect
  | error cause => "ERROR: " ++ cause.message

/-- Whether a value has no foreign node in it, so that its text can be read. -/
def isNative : Value → Bool
  | function _ closure => Node.allNative closure.body
  | returned value => value.isNative
  | _ => true

/-- A value as the user sees it, if its text can be read. -/
def inspect? (value : Value) : Option String :=
  if value.isNative then some value.inspect else none

/-- A value with its kind.  Of a function only the parameters are shown. -/
def describe : Value → String
  | value@(integer ..) => "Integer(" ++ value.inspect ++ ")"
  | value@(boolean _) => "Boolean(" ++ value.inspect ++ ")"
  | null => "Null(null)"
  | function _ closure => "Function(" ++ Identifier.renderAll closure.parameters ++ ")"
  | value@(returned _) => "ReturnValue(" ++ value.inspect ++ ")"
  | value@(error _) => "Error(" ++ value.inspect ++ ")"

end Value

end MonkeyLang
