import MonkeyLang.Evaluation

/-!
# Evaluation that is left at once

Evaluation passes signals upward as values, and every place that takes a value has to look whether it
is one.  This file says the same without signals: a failure or a `return` leaves everything around it
at once, up to the place that catches it.  A call catches what is returned, and a program catches
what is returned and failures, too.

This is what evaluation is meant to do.  `MonkeyLang.Proofs.Evaluation.Agreement` shows that it does.

* `Leave` lists the ways to leave, and `Interpretation` is evaluation that can be left.
* `interpret` is the interpretation of nodes down to a depth, and `interpretProgram` that of a
  program.
-/

set_option autoImplicit false

namespace MonkeyLang

/-- How an interpretation is left before its end. -/
inductive Leave where
  /-- Something fails. -/
  | failed (cause : Failure)
  /-- A value is returned. -/
  | returned (value : Value)
  /-- The whole interpretation is given up. -/
  | halted (cause : Halt)

/-- Interpretation as something of a type. -/
abbrev Interpretation (α : Type) : Type :=
  EStateM Leave Heap α

namespace Interpretation

/-- What evaluation does where no signals are met. -/
def lift {α : Type} (evaluation : Evaluation α) : Interpretation α := fun heap =>
  match evaluation heap with
  | .ok a after => .ok a after
  | .error cause after => .error (.halted cause) after

/-- Catches what is returned, and nothing else. -/
def catchReturned (interpretation : Interpretation Value) : Interpretation Value := fun heap =>
  match interpretation heap with
  | .error (.returned value) after => .ok value after
  | result => result

/-- The value that an operator gives. -/
def outcome : Outcome → Interpretation Value
  | .integer value => lift (Evaluation.integer value)
  | .boolean value => return .boolean value
  | .error cause => throw (.failed cause)

/-- What a name stands for in a scope. -/
def reference (scope : ScopeId) (name : String) : Interpretation Value := do
  match (← get).lookup scope name with
  | some value => return value
  | none => throw (.failed (.unbound name))

end Interpretation

/-- How nodes are interpreted in scopes. -/
abbrev Interpreter : Type :=
  Node → ScopeId → Interpretation Value

namespace Interpreter

/-- The value of the last of some statements.  Without statements it is the value `before` them. -/
def statements (interpreter : Interpreter) (scope : ScopeId) (before : Value) :
    List Node → Interpretation Value
  | [] => return before
  | first :: rest => do interpreter.statements scope (← interpreter first scope) rest

/-- The values of some arguments, from left to right. -/
def arguments (interpreter : Interpreter) (scope : ScopeId) :
    List Node → Interpretation (List Value)
  | [] => return []
  | first :: rest => do
    let value ← interpreter first scope
    return value :: (← interpreter.arguments scope rest)

/-- Calls a value. -/
def apply (interpreter : Interpreter) (callee : Value) (values : List Value) :
    Interpretation Value := do
  match callee with
  | .function _ closure =>
    if values.length ≠ closure.parameters.length then
      throw (.failed (.arity closure.parameters.length values.length))
    else
      let scope ← Interpretation.lift (Evaluation.enclose (some closure.scope))
      Interpretation.lift
        (Evaluation.bindAll scope ((closure.parameters.map (·.name)).zip values))
      Interpretation.catchReturned (interpreter (.block closure.brace closure.body) scope)
  | _ => throw (.failed (.notFunction callee.kind))

end Interpreter

open Interpretation in
/-- The value of a node, given the interpretation of its parts.  A program inside a tree, which no
text has, leaves failures to the program around it. -/
def interpretWith (interpreter : Interpreter) (node : Node) (scope : ScopeId) :
    Interpretation Value := do
  match node with
  | .program statements => catchReturned (interpreter.statements scope .null statements)
  | .block _ statements => interpreter.statements scope .null statements
  | .expression _ inner => interpreter inner scope
  | .result _ inner => throw (.returned (← interpreter inner scope))
  | .binding _ identifier inner =>
    lift (Evaluation.bind scope identifier.name (← interpreter inner scope))
    return .null
  | .integer _ value => lift (Evaluation.integer value)
  | .boolean _ value => return .boolean value
  | .reference identifier => reference scope identifier.name
  | .unary _ operator operand => outcome (.unary operator (← interpreter operand scope))
  | .binary _ left operator right =>
    let leftValue ← interpreter left scope
    let rightValue ← interpreter right scope
    outcome (.binary operator leftValue rightValue)
  | .ifThen _ condition brace body =>
    if (← interpreter condition scope).isTruthy then interpreter (.block brace body) scope
    else return .null
  | .ifThenElse _ condition brace body elseBrace elseBody =>
    if (← interpreter condition scope).isTruthy then interpreter (.block brace body) scope
    else interpreter (.block elseBrace elseBody) scope
  | .function _ parameters brace body =>
    lift (Evaluation.function ⟨parameters, brace, body, scope⟩)
  | .call _ callee arguments =>
    let function ← interpreter callee scope
    let values ← interpreter.arguments scope arguments
    interpreter.apply function values
  | .foreign name _ => throw (.halted (.foreign name))

/-- Interpretation that gives up when nodes and calls are nested more deeply than the number says. -/
def interpret : Nat → Interpreter
  | 0, _, _ => throw (.halted .tooDeep)
  | depth + 1, node, scope => interpretWith (interpret depth) node scope

/-- A program catches what is returned and failures.  A failure is then its value. -/
def interpretProgram : Nat → List Node → ScopeId → Evaluation Value
  | 0, _, _ => throw .tooDeep
  | depth + 1, statements, scope => fun heap =>
    match (interpret depth).statements scope .null statements heap with
    | .ok value after => .ok value after
    | .error (.returned value) after => .ok value after
    | .error (.failed cause) after => .ok (.error cause) after
    | .error (.halted cause) after => .error cause after

end MonkeyLang
