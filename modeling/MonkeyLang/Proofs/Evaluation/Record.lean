import MonkeyLang.Proofs.Evaluation.Confinement

/-!
# Evaluation on record

What happens in the middle of an evaluation cannot be told from the value that it comes to.  This file
has an evaluation that keeps a record: of every node that comes to a value, and of everything that is
done with values on the way, each with the heap of that moment (`record`).

Keeping a record changes nothing else.  If the record is forgotten, what is left is the evaluation
(`follows_record`).

* `Deed` lists what is done with values.  A deed goes on record before it is done, except for those
  that have an outcome of their own to be put down.
* `recordAll` keeps one record of evaluations that are done one after the other.
-/

set_option autoImplicit false

namespace MonkeyLang

/-! ## Records -/

/-- What is done with values in the course of an evaluation. -/
inductive Deed where
  /-- A node comes to a value. -/
  | evaluated (node : Node) (value : Value)
  /-- An operator is applied to its operand. -/
  | unary (operator : String) (operand : Value)
  /-- An operator is applied to its operands. -/
  | binary (operator : String) (left right : Value)
  /-- The condition of a conditional is looked at. -/
  | tested (condition : Value)
  /-- A value is called. -/
  | called (callee : Value) (arguments : List Value)
  /-- A call comes to a value. -/
  | answered (callee : Value) (arguments : List Value) (value : Value)
  /-- A value is sent on its way to the end of a call. -/
  | sent (value : Value)
  /-- A name is bound in a scope. -/
  | bound (scope : ScopeId) (name : String) (value : Value)

/-- A deed, and the heap of its moment. -/
structure Moment where
  deed : Deed
  heap : Heap

/-- A heap, and the moments that came before it, the oldest first. -/
structure Record where
  heap : Heap
  moments : List Moment := []

/-- Evaluation that keeps a record.  What is on record stays there, even if evaluation is given up. -/
abbrev Recording (α : Type) : Type :=
  EStateM Halt Record α

namespace Recording

/-- Puts a deed on record. -/
def note (deed : Deed) : Recording Unit :=
  modify fun record => { record with moments := record.moments ++ [⟨deed, record.heap⟩] }

/-- A step that goes on record in no other way than by what it does to the heap. -/
def lift {α : Type} (step : Evaluation α) : Recording α := fun record =>
  match step record.heap with
  | .ok a heap => .ok a { record with heap }
  | .error cause heap => .error cause { record with heap }

/-- Goes on with a value unless it is a signal. -/
def andThen (value : Value) (next : Value → Recording Value) : Recording Value :=
  if value.isSignal then return value else next value

/-- Binds a name in a scope. -/
def bind (scope : ScopeId) (name : String) (value : Value) : Recording Unit := do
  lift (Evaluation.bind scope name value)
  note (.bound scope name value)

/-- Binds names in a scope one after the other. -/
def bindAll (scope : ScopeId) : List (String × Value) → Recording Unit
  | [] => return
  | (name, value) :: rest => do
    bind scope name value
    bindAll scope rest

end Recording

/-! ## Evaluating with a record -/

/-- How nodes are evaluated with a record. -/
abbrev Recorder : Type :=
  Node → ScopeId → Recording Value

namespace Recorder

/-- The value of the last of some statements, or the first signal among their values. -/
def statements (recorder : Recorder) (scope : ScopeId) (before : Value) :
    List Node → Recording Value
  | [] => return before
  | first :: rest => do
    let value ← recorder first scope
    Recording.andThen value fun value => recorder.statements scope value rest

/-- The values of some arguments, or the first signal among them. -/
def arguments (recorder : Recorder) (scope : ScopeId) :
    List Node → Recording (Except Value (List Value))
  | [] => return .ok []
  | first :: rest => do
    let value ← recorder first scope
    if value.isSignal then return .error value
    else return (← recorder.arguments scope rest).map (value :: ·)

/-- The body of a call. -/
def enter (recorder : Recorder) (callee : Value) (values : List Value) : Recording Value := do
  match callee with
  | .function _ closure =>
    if values.length ≠ closure.parameters.length then
      return .error (.arity closure.parameters.length values.length)
    else
      let scope ← Recording.lift (Evaluation.enclose (some closure.scope))
      Recording.bindAll scope ((closure.parameters.map (·.name)).zip values)
      return (← recorder (.block closure.brace closure.body) scope).unwrap
  | _ => return .error (.notFunction callee.kind)

/-- Calls a value. -/
def apply (recorder : Recorder) (callee : Value) (values : List Value) : Recording Value := do
  Recording.note (.called callee values)
  let value ← recorder.enter callee values
  Recording.note (.answered callee values value)
  return value

end Recorder

open Recording in
/-- The value of a node, given the evaluation of its parts, with a record of what is done to get it. -/
def recordParts (recorder : Recorder) (node : Node) (scope : ScopeId) : Recording Value := do
  match node with
  | .program statements => return (← recorder.statements scope .null statements).unwrap
  | .block _ statements => recorder.statements scope .null statements
  | .expression _ inner => recorder inner scope
  | .result _ inner =>
    andThen (← recorder inner scope) fun value => do
      note (.sent value)
      return .returned value
  | .binding _ identifier inner =>
    andThen (← recorder inner scope) fun value => do
      bind scope identifier.name value
      return .null
  | .integer _ value => lift (Evaluation.integer value)
  | .boolean _ value => return .boolean value
  | .reference identifier => lift (Evaluation.reference scope identifier.name)
  | .unary _ operator operand =>
    andThen (← recorder operand scope) fun value => do
      note (.unary operator value)
      lift (Evaluation.outcome (.unary operator value))
  | .binary _ left operator right =>
    andThen (← recorder left scope) fun leftValue => do
      andThen (← recorder right scope) fun rightValue => do
        note (.binary operator leftValue rightValue)
        lift (Evaluation.outcome (.binary operator leftValue rightValue))
  | .ifThen _ condition brace body =>
    andThen (← recorder condition scope) fun value => do
      note (.tested value)
      if value.isTruthy then recorder (.block brace body) scope else return .null
  | .ifThenElse _ condition brace body elseBrace elseBody =>
    andThen (← recorder condition scope) fun value => do
      note (.tested value)
      if value.isTruthy then recorder (.block brace body) scope
      else recorder (.block elseBrace elseBody) scope
  | .function _ parameters brace body =>
    lift (Evaluation.function ⟨parameters, brace, body, scope⟩)
  | .call _ callee arguments =>
    andThen (← recorder callee scope) fun function => do
      match ← recorder.arguments scope arguments with
      | .error signal => return signal
      | .ok values => recorder.apply function values
  | .foreign name _ => throw (.foreign name)

/-- The value of a node goes on record, too. -/
def recordWith (recorder : Recorder) (node : Node) (scope : ScopeId) : Recording Value := do
  let value ← recordParts recorder node scope
  Recording.note (.evaluated node value)
  return value

/-- Evaluation with a record, down to a depth. -/
def record : Nat → Recorder
  | 0, _, _ => throw .tooDeep
  | depth + 1, node, scope => recordWith (record depth) node scope

/-! ## Forgetting the record -/

/-- A result without its record. -/
def forget {α : Type} : EStateM.Result Halt Record α → EStateM.Result Halt Heap α
  | .ok a after => .ok a after.heap
  | .error cause after => .error cause after.heap

/-- Without its record, the recording is the evaluation. -/
def Follows {α : Type} (recording : Recording α) (evaluation : Evaluation α) : Prop :=
  ∀ before : Record, forget (recording before) = evaluation before.heap

namespace Follows

variable {α β : Type} {recording : Recording α} {evaluation : Evaluation α}
  {next : α → Recording β} {next' : α → Evaluation β}

theorem pure (a : α) : Follows (Pure.pure a) (Pure.pure a) := fun _ => rfl

theorem throw (cause : Halt) : Follows (throw cause : Recording α) (throw cause) := fun _ => rfl

theorem bind (h : Follows recording evaluation) (h' : ∀ a, Follows (next a) (next' a)) :
    Follows (recording >>= next) (evaluation >>= next') := by
  intro before
  simp only [Bind.bind, EStateM.bind, ← h before]
  cases recording before with
  | ok a middle => exact h' a middle
  | error cause middle => rfl

theorem lift (step : Evaluation α) : Follows (Recording.lift step) step := by
  intro before
  rw [Recording.lift]
  cases step before.heap <;> rfl

/-- A note leaves no trace. -/
theorem note {deed : Deed} {next : Unit → Recording α} (h : Follows (next ()) evaluation) :
    Follows (Recording.note deed >>= next) evaluation :=
  fun before => h { before with moments := before.moments ++ [⟨deed, before.heap⟩] }

/-- A note of the outcome leaves no trace either. -/
theorem noteAfter (h : Follows recording evaluation) (deed : α → Deed) :
    Follows (recording >>= fun a => Recording.note (deed a) >>= fun _ => Pure.pure a)
      evaluation := by
  intro before
  rw [← h before]
  simp only [Bind.bind, EStateM.bind]
  cases recording before <;> rfl

theorem ite {c : Prop} [Decidable c] {other : Recording α} {other' : Evaluation α}
    (h : Follows recording evaluation) (h' : Follows other other') :
    Follows (if c then recording else other) (if c then evaluation else other') := by
  split <;> assumption

theorem andThen {next : Value → Recording Value} {next' : Value → Evaluation Value} (value : Value)
    (h : Follows (next value) (next' value)) :
    Follows (Recording.andThen value next) (Evaluation.andThen value next') :=
  .ite (.pure value) h

theorem bindName (scope : ScopeId) (name : String) (value : Value) :
    Follows (Recording.bind scope name value) (Evaluation.bind scope name value) :=
  fun _ => rfl

theorem bindAll (scope : ScopeId) : ∀ bindings : List (String × Value),
    Follows (Recording.bindAll scope bindings) (Evaluation.bindAll scope bindings)
  | [] => .pure ()
  | (name, value) :: rest => .bind (.bindName scope name value) fun _ => bindAll scope rest

end Follows

section Nodes

variable {recorder : Recorder} {evaluator : Evaluator}
  (h : ∀ node scope, Follows (recorder node scope) (evaluator node scope))
include h

theorem follows_statements (scope : ScopeId) : ∀ (before : Value) (statements : List Node),
    Follows (recorder.statements scope before statements)
      (evaluator.statements scope before statements)
  | before, [] => .pure before
  | _, first :: rest => .bind (h first scope) fun value => .andThen value
    (follows_statements scope value rest)

theorem follows_arguments (scope : ScopeId) (arguments : List Node) :
    Follows (recorder.arguments scope arguments) (evaluator.arguments scope arguments) := by
  induction arguments with
  | nil => exact .pure _
  | cons first rest ih =>
    exact .bind (h first scope) fun _ => .ite (.pure _) (.bind ih fun _ => .pure _)

theorem follows_apply (callee : Value) (values : List Value) :
    Follows (recorder.apply callee values) (evaluator.apply callee values) := by
  refine .note (.noteAfter ?_ _)
  cases callee with
  | function stamp closure =>
    exact .ite (.pure _) <| .bind (.lift _) fun scope => .bind (.bindAll scope _) fun _ =>
      .bind (h _ scope) fun _ => .pure _
  | _ => exact .pure _

theorem follows_recordWith (node : Node) (scope : ScopeId) :
    Follows (recordWith recorder node scope) (evaluateWith evaluator node scope) := by
  refine .noteAfter ?_ _
  cases node with
  | program statements => exact .bind (follows_statements h scope .null statements) fun _ => .pure _
  | block _ statements => exact follows_statements h scope .null statements
  | expression _ inner => exact h inner scope
  | result _ inner => exact .bind (h inner scope) fun value => .andThen value (.note (.pure _))
  | binding _ identifier inner =>
    exact .bind (h inner scope) fun value => .andThen value <|
      .bind (.bindName scope identifier.name value) fun _ => .pure _
  | integer _ value => exact .lift (Evaluation.integer value)
  | boolean _ value => exact .pure _
  | reference identifier => exact .lift (Evaluation.reference scope identifier.name)
  | unary _ operator operand =>
    exact .bind (h operand scope) fun value => .andThen value (.note (.lift _))
  | binary _ left operator right =>
    exact .bind (h left scope) fun value => .andThen value <| .bind (h right scope) fun other =>
      .andThen other (.note (.lift _))
  | ifThen _ condition brace body =>
    exact .bind (h condition scope) fun value => .andThen value <| .note <|
      .ite (h _ scope) (.pure _)
  | ifThenElse _ condition brace body elseBrace elseBody =>
    exact .bind (h condition scope) fun value => .andThen value <| .note <|
      .ite (h _ scope) (h _ scope)
  | function _ parameters brace body => exact .lift (Evaluation.function _)
  | call _ callee arguments =>
    refine .bind (h callee scope) fun function => .andThen function <|
      .bind (follows_arguments h scope arguments) ?_
    rintro (signal | values)
    · exact .pure signal
    · exact follows_apply h function values
  | foreign name _ => exact .throw _

end Nodes

/-- **Keeping a record changes nothing** of what evaluation does. -/
theorem follows_record : ∀ depth node scope,
    Follows (record depth node scope) (evaluate depth node scope)
  | 0, _, _ => .throw _
  | depth + 1, node, scope => follows_recordWith (follows_record depth) node scope

/-! ## Evaluations one after the other -/

/-- A node that is to be evaluated, in which scope, and down to which depth. -/
structure Task where
  depth : Nat
  node : Node
  scope : ScopeId

/-- The heap that is left when all tasks are done. -/
def evaluateAll : List Task → Heap → Heap
  | [], heap => heap
  | task :: rest, heap =>
    evaluateAll rest ((evaluate task.depth task.node task.scope).heapAfter heap)

/-- The record that an evaluation leaves, even if it is given up. -/
def Recording.recordAfter {α : Type} (recording : Recording α) (before : Record) : Record :=
  match recording before with
  | .ok _ after => after
  | .error _ after => after

/-- The record that is left when all tasks are done. -/
def recordAll : List Task → Record → Record
  | [], before => before
  | task :: rest, before =>
    recordAll rest ((record task.depth task.node task.scope).recordAfter before)

theorem Follows.heap_recordAfter {α : Type} {recording : Recording α} {evaluation : Evaluation α}
    (h : Follows recording evaluation) (before : Record) :
    (recording.recordAfter before).heap = evaluation.heapAfter before.heap := by
  rw [Evaluation.heapAfter, ← h before, Recording.recordAfter]
  cases recording before <;> rfl

theorem heap_recordAll : ∀ (tasks : List Task) (before : Record),
    (recordAll tasks before).heap = evaluateAll tasks before.heap
  | [], _ => rfl
  | task :: rest, before => by
    rw [recordAll, heap_recordAll rest, evaluateAll,
      (follows_record task.depth task.node task.scope).heap_recordAfter]

end MonkeyLang
