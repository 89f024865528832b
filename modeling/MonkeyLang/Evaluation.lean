import MonkeyLang.Heap
import MonkeyLang.Operator

/-!
# Evaluation

Evaluating a node in a scope gives a value and may change the heap: bindings add names to the scope,
and each call adds a scope for its parameters, inside the scope of the function.

Signals travel upward.  A node whose part is a signal has that signal as its own value and evaluates
nothing further.  There are two places where a `returned` value is unwrapped, a call and a whole
program, and none where a failure is.

Evaluation nests: a node evaluates its parts, and a call evaluates the body of a function, which may
call the function again.  So nothing bounds the nesting, and evaluation is given up at a depth that
is fixed beforehand, keeping all bindings made until then (`Halt.tooDeep`).  A foreign node gives up
evaluation too.

* `evaluateWith` evaluates one node, given the evaluation of its parts.
* `evaluate` is evaluation down to a depth.
-/

set_option autoImplicit false

namespace MonkeyLang

/-- Why evaluation is given up. -/
inductive Halt where
  /-- Nodes are nested too deeply, or calls are. -/
  | tooDeep
  /-- A node is none of the language's own. -/
  | foreign (name : String)
  deriving DecidableEq, Repr, Inhabited

/-- The wording of a reason to give up. -/
def Halt.message : Halt → String
  | tooDeep => "RecursionError"
  | foreign name => "Unknown node type: " ++ name

/-- Evaluation to something of a type.  What it does to the heap stays done, even if it is given
up. -/
abbrev Evaluation (α : Type) : Type :=
  EStateM Halt Heap α

namespace Evaluation

/-! ## What evaluation does to the heap -/

/-- A stamp that no value carries yet. -/
def stamp : Evaluation Nat :=
  modifyGet fun heap => (heap.stamps, { heap with stamps := heap.stamps + 1 })

/-- A new integer. -/
def integer (value : Int) : Evaluation Value :=
  return .integer (← stamp) value

/-- A new function. -/
def function (closure : Closure) : Evaluation Value :=
  return .function (← stamp) closure

/-- The value that an operator gives. -/
def outcome : Outcome → Evaluation Value
  | .integer value => integer value
  | .boolean value => return .boolean value
  | .error cause => return .error cause

/-- Binds a name in a scope. -/
def bind (scope : ScopeId) (name : String) (value : Value) : Evaluation Unit :=
  modify fun heap => heap.bind scope name value

/-- Binds names in a scope one after the other. -/
def bindAll (scope : ScopeId) : List (String × Value) → Evaluation Unit
  | [] => return
  | (name, value) :: rest => do
    bind scope name value
    bindAll scope rest

/-- Adds a scope. -/
def enclose (outer : Option ScopeId) : Evaluation ScopeId :=
  modifyGet fun heap => heap.enclose outer

/-- What a name stands for in a scope. -/
def reference (scope : ScopeId) (name : String) : Evaluation Value := do
  return ((← get).lookup scope name).getD (.error (.unbound name))

/-- Goes on with a value unless it is a signal. -/
def andThen (value : Value) (next : Value → Evaluation Value) : Evaluation Value :=
  if value.isSignal then return value else next value

end Evaluation

/-- How nodes are evaluated in scopes. -/
abbrev Evaluator : Type :=
  Node → ScopeId → Evaluation Value

namespace Evaluator

/-! ## Lists of nodes -/

/-- The value of the last of some statements, or the first signal among their values.  Without
statements it is the value `before` them. -/
def statements (evaluator : Evaluator) (scope : ScopeId) (before : Value) :
    List Node → Evaluation Value
  | [] => return before
  | first :: rest => do
    let value ← evaluator first scope
    Evaluation.andThen value fun value => evaluator.statements scope value rest

/-- The values of some arguments, from left to right, or the first signal among them. -/
def arguments (evaluator : Evaluator) (scope : ScopeId) :
    List Node → Evaluation (Except Value (List Value))
  | [] => return .ok []
  | first :: rest => do
    let value ← evaluator first scope
    if value.isSignal then return .error value
    else return (← evaluator.arguments scope rest).map (value :: ·)

/-! ## Calls -/

/-- Calls a value.  The body of a function is evaluated in a new scope, which stands in the scope of
the function and binds the parameters. -/
def apply (evaluator : Evaluator) (callee : Value) (values : List Value) : Evaluation Value := do
  match callee with
  | .function _ closure =>
    if values.length ≠ closure.parameters.length then
      return .error (.arity closure.parameters.length values.length)
    else
      let scope ← Evaluation.enclose (some closure.scope)
      Evaluation.bindAll scope ((closure.parameters.map (·.name)).zip values)
      return (← evaluator (.block closure.brace closure.body) scope).unwrap
  | _ => return .error (.notFunction callee.kind)

end Evaluator

/-! ## Nodes -/

open Evaluation in
/-- The value of a node, given the evaluation of its parts. -/
def evaluateWith (evaluator : Evaluator) (node : Node) (scope : ScopeId) : Evaluation Value := do
  match node with
  | .program statements => return (← evaluator.statements scope .null statements).unwrap
  | .block _ statements => evaluator.statements scope .null statements
  | .expression _ inner => evaluator inner scope
  | .result _ inner => andThen (← evaluator inner scope) fun value => return .returned value
  | .binding _ identifier inner =>
    andThen (← evaluator inner scope) fun value => do
      bind scope identifier.name value
      return .null
  | .integer _ value => integer value
  | .boolean _ value => return .boolean value
  | .reference identifier => reference scope identifier.name
  | .unary _ operator operand =>
    andThen (← evaluator operand scope) fun value => outcome (.unary operator value)
  | .binary _ left operator right =>
    andThen (← evaluator left scope) fun leftValue => do
      andThen (← evaluator right scope) fun rightValue =>
        outcome (.binary operator leftValue rightValue)
  | .ifThen _ condition brace body =>
    andThen (← evaluator condition scope) fun value =>
      if value.isTruthy then evaluator (.block brace body) scope else return .null
  | .ifThenElse _ condition brace body elseBrace elseBody =>
    andThen (← evaluator condition scope) fun value =>
      if value.isTruthy then evaluator (.block brace body) scope
      else evaluator (.block elseBrace elseBody) scope
  | .function _ parameters brace body => function ⟨parameters, brace, body, scope⟩
  | .call _ callee arguments =>
    andThen (← evaluator callee scope) fun function => do
      match ← evaluator.arguments scope arguments with
      | .error signal => return signal
      | .ok values => evaluator.apply function values
  | .foreign name _ => throw (.foreign name)

/-- Evaluation that gives up when nodes and calls are nested more deeply than the number says. -/
def evaluate : Nat → Evaluator
  | 0, _, _ => throw .tooDeep
  | depth + 1, node, scope => evaluateWith (evaluate depth) node scope

/-- How deeply nodes and calls may be nested in a program that is run. -/
def depthLimit : Nat := 1000

end MonkeyLang
