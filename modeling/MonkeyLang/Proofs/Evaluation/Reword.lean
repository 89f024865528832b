import MonkeyLang.Evaluation
import MonkeyLang.Proofs.Rendering.Reword

/-!
# Evaluation does not look at tokens

Functions keep the parameters and the body that they are made from, and so a heap has pieces of trees in
it, with tokens.  Tokens make no difference to evaluation, though.  If they are changed everywhere, in
the node and in the heap, then evaluation comes to the same result but for the tokens, which are changed
in it the same way (`echoes_evaluate`).

For each of the ways in which evaluation is put together from steps there is one rule that says so
(`Echoes.bind` and those behind it).

* `seen` is what an evaluation shows to the outside: values by their kind and text, and scopes by the
  names in them and what these are bound to.
* `seen_eq_of_gist` says that nodes with the same gist show the same, from heaps with the same gist.
-/

set_option autoImplicit false

namespace MonkeyLang

variable {change : Rewording}

/-! ## Values -/

/-- A function with its tokens changed. -/
def Closure.reword (change : Rewording) (closure : Closure) : Closure :=
  ⟨closure.parameters.map (·.mapToken fun _ => default), default,
    Node.rewordAll change closure.body, closure.scope⟩

namespace Value

/-- A value with its tokens changed. -/
def reword (change : Rewording) : Value → Value
  | function stamp closure => function stamp (closure.reword change)
  | returned value => returned (value.reword change)
  | value => value

@[simp] theorem kind_reword (value : Value) : (value.reword change).kind = value.kind := by
  cases value <;> rfl

@[simp] theorem isSignal_reword (value : Value) :
    (value.reword change).isSignal = value.isSignal := by
  cases value <;> rfl

@[simp] theorem isTruthy_reword (value : Value) :
    (value.reword change).isTruthy = value.isTruthy := by
  cases value <;> rfl

theorem unwrap_reword (value : Value) : (value.reword change).unwrap = value.unwrap.reword change := by
  cases value <;> rfl

/-- A value and its gist look alike. -/
theorem inspect_gist : ∀ value : Value, (value.reword .gist).inspect = value.inspect
  | integer .. | boolean _ | null | error _ => rfl
  | function _ closure => by
    simp only [reword, inspect, Closure.reword, Node.renderAll_unworded, Node.renderStatements_gist]
  | returned value => inspect_gist value

end Value

theorem Outcome.unary_reword (operator : String) (operand : Value) :
    unary operator (operand.reword change) = unary operator operand := by
  by_cases hnot : operator = "!"
  · subst hnot
    simp [unary]
  · cases operand with
    | integer stamp value => rfl
    | _ => simp [unary, Value.reword, Value.kind]

theorem Outcome.binary_reword (operator : String) (left right : Value) :
    binary operator (left.reword change) (right.reword change) = binary operator left right := by
  cases left <;> cases right <;>
    simp [binary, ofOthers, Value.reword, Value.kind, Value.identical]

/-! ## Heaps -/

namespace Scope

/-- Bindings with the tokens of their values changed. -/
def rewordAll (change : Rewording) (bindings : List (String × Value)) : List (String × Value) :=
  bindings.map fun binding => (binding.1, binding.2.reword change)

theorem insert_reword (name : String) (value : Value) : ∀ bindings : List (String × Value),
    insert name (value.reword change) (rewordAll change bindings) =
      rewordAll change (insert name value bindings)
  | [] => rfl
  | binding :: rest => by
    have ih := insert_reword name value rest
    simp only [rewordAll, List.map_cons, insert] at ih ⊢
    split
    · rfl
    · rw [ih, List.map_cons]

theorem find?_reword (name : String) : ∀ bindings : List (String × Value),
    find? name (rewordAll change bindings) = (find? name bindings).map (·.reword change)
  | [] => rfl
  | binding :: rest => by
    have ih := find?_reword name rest
    simp only [rewordAll, List.map_cons, find?] at ih ⊢
    split
    · rfl
    · exact ih

/-- A scope with the tokens of its values changed. -/
def reword (change : Rewording) (scope : Scope) : Scope :=
  ⟨rewordAll change scope.bindings, scope.outer⟩

end Scope

namespace Heap

/-- A heap with the tokens of its values changed. -/
def reword (change : Rewording) (heap : Heap) : Heap :=
  ⟨heap.scopes.map (·.reword change), heap.stamps⟩

theorem binding?_reword (heap : Heap) (id : ScopeId) (name : String) :
    (heap.reword change).binding? id name = (heap.binding? id name).map (·.reword change) := by
  rw [binding?, binding?, reword, Array.getElem?_map]
  cases heap.scopes[id]? with
  | none => rfl
  | some scope => exact Scope.find?_reword name scope.bindings

theorem chainUpTo_reword (heap : Heap) : ∀ (length : Nat) (id : ScopeId),
    (heap.reword change).chainUpTo length id = heap.chainUpTo length id
  | 0, _ => rfl
  | length + 1, id => by
    rw [chainUpTo, chainUpTo, reword, Array.getElem?_map]
    cases heap.scopes[id]? with
    | none => rfl
    | some scope =>
      simp only [Option.map_some, Scope.reword]
      cases scope.outer with
      | none => rfl
      | some outer => exact congrArg (id :: ·) (chainUpTo_reword heap length outer)

theorem lookup_reword (heap : Heap) (id : ScopeId) (name : String) :
    (heap.reword change).lookup id name = (heap.lookup id name).map (·.reword change) := by
  rw [lookup, lookup, chain, chain, chainUpTo_reword, List.map_findSome?]
  exact congrArg (List.findSome? · _) (funext fun id => binding?_reword heap id name)

theorem bind_reword (heap : Heap) (id : ScopeId) (name : String) (value : Value) :
    (heap.reword change).bind id name (value.reword change) =
      (heap.bind id name value).reword change := by
  simp only [bind, reword, mk.injEq, and_true]
  refine Array.ext_getElem? fun other => ?_
  simp only [Array.getElem?_modify, Array.getElem?_map]
  split
  · simp [Function.comp_def, Scope.reword, Scope.insert_reword]
  · rfl

theorem enclose_reword (heap : Heap) (outer : Option ScopeId) :
    (heap.reword change).enclose outer =
      ((heap.enclose outer).1, (heap.enclose outer).2.reword change) := by
  simp [enclose, reword, Scope.reword, Scope.rewordAll]

end Heap

/-! ## Evaluations with echoes -/

/-- A result with its value and its heap changed. -/
def changeResult {α : Type} (image : α → α) (after : Heap → Heap) :
    EStateM.Result Halt Heap α → EStateM.Result Halt Heap α
  | .ok a heap => .ok (image a) (after heap)
  | .error cause heap => .error cause (after heap)

/-- With the tokens of the heap changed, the echo does what the evaluation does, but for the tokens of
the result, which are changed the same way. -/
def Echoes (change : Rewording) {α : Type} (image : α → α) (evaluation echo : Evaluation α) : Prop :=
  ∀ heap : Heap, echo (heap.reword change) =
    changeResult image (Heap.reword change) (evaluation heap)

/-- Evaluations that come to values. -/
abbrev EchoesValue (change : Rewording) : Evaluation Value → Evaluation Value → Prop :=
  Echoes change (Value.reword change)

namespace Echoes

variable {α β : Type} {image : α → α} {image' : β → β} {evaluation echo : Evaluation α}

theorem pure (a : α) : Echoes change image (Pure.pure a) (Pure.pure (image a)) :=
  fun _ => rfl

theorem throw (cause : Halt) : Echoes change image (throw cause) (throw cause) :=
  fun _ => rfl

theorem bind {next next' : α → Evaluation β} (h : Echoes change image evaluation echo)
    (h' : ∀ a, Echoes change image' (next a) (next' (image a))) :
    Echoes change image' (evaluation >>= next) (echo >>= next') := by
  intro heap
  simp only [Bind.bind, EStateM.bind, h heap]
  cases evaluation heap with
  | ok a middle => exact h' a middle
  | error cause middle => rfl

theorem ite {c : Prop} [Decidable c] {other other' : Evaluation α}
    (h : Echoes change image evaluation echo) (h' : Echoes change image other other') :
    Echoes change image (if c then evaluation else other) (if c then echo else other') := by
  split <;> assumption

theorem integer (value : Int) :
    EchoesValue change (Evaluation.integer value) (Evaluation.integer value) :=
  fun _ => rfl

theorem function (closure : Closure) :
    EchoesValue change (Evaluation.function closure)
      (Evaluation.function (closure.reword change)) :=
  fun _ => rfl

theorem outcome : ∀ outcome : Outcome,
    EchoesValue change (Evaluation.outcome outcome) (Evaluation.outcome outcome)
  | .integer value => integer value
  | .boolean value => pure (Value.boolean value)
  | .error cause => pure (Value.error cause)

theorem reference (scope : ScopeId) (name : String) :
    EchoesValue change (Evaluation.reference scope name) (Evaluation.reference scope name) := by
  intro heap
  show EStateM.Result.ok (((heap.reword change).lookup scope name).getD _) _ =
    .ok (((heap.lookup scope name).getD _).reword change) _
  rw [Heap.lookup_reword]
  cases heap.lookup scope name <;> rfl

theorem bindName (scope : ScopeId) (name : String) (value : Value) :
    Echoes change id (Evaluation.bind scope name value)
      (Evaluation.bind scope name (value.reword change)) :=
  fun heap => congrArg (EStateM.Result.ok ()) (Heap.bind_reword heap scope name value)

theorem bindAll (scope : ScopeId) : ∀ bindings : List (String × Value),
    Echoes change id (Evaluation.bindAll scope bindings)
      (Evaluation.bindAll scope (Scope.rewordAll change bindings))
  | [] => pure ()
  | (name, value) :: rest => bind (bindName scope name value) fun _ => bindAll scope rest

theorem enclose (outer : Option ScopeId) :
    Echoes change id (Evaluation.enclose outer) (Evaluation.enclose outer) := by
  intro heap
  show EStateM.Result.ok ((heap.reword change).enclose outer).1 ((heap.reword change).enclose outer).2
    = _
  rw [Heap.enclose_reword]
  rfl

theorem andThen {value : Value} {next next' : Value → Evaluation Value}
    (h : EchoesValue change (next value) (next' (value.reword change))) :
    EchoesValue change (Evaluation.andThen value next)
      (Evaluation.andThen (value.reword change) next') := by
  rw [Evaluation.andThen, Evaluation.andThen, Value.isSignal_reword]
  exact .ite (.pure value) h

theorem unwrap {evaluation echo : Evaluation Value} (h : EchoesValue change evaluation echo) :
    EchoesValue change (evaluation >>= fun value => Pure.pure value.unwrap)
      (echo >>= fun value => Pure.pure value.unwrap) :=
  bind h fun value => by
    rw [Value.unwrap_reword]
    exact pure value.unwrap

end Echoes

/-! ## Nodes -/

/-- The values of some arguments with their tokens changed, or the signal among them. -/
def rewordArguments (change : Rewording) :
    Except Value (List Value) → Except Value (List Value)
  | .error signal => .error (signal.reword change)
  | .ok values => .ok (values.map (·.reword change))

section Nodes

variable {evaluator : Evaluator}
  (h : ∀ node scope, EchoesValue change (evaluator node scope) (evaluator (node.reword change) scope))
include h

theorem echoes_statements (scope : ScopeId) : ∀ (before : Value) (statements : List Node),
    EchoesValue change (evaluator.statements scope before statements)
      (evaluator.statements scope (before.reword change) (Node.rewordAll change statements))
  | before, [] => .pure before
  | _, first :: rest => .bind (h first scope) fun value => .andThen
    (echoes_statements scope value rest)

theorem echoes_arguments (scope : ScopeId) (arguments : List Node) :
    Echoes change (rewordArguments change) (evaluator.arguments scope arguments)
      (evaluator.arguments scope (Node.rewordAll change arguments)) := by
  induction arguments with
  | nil => exact .pure (Except.ok [])
  | cons first rest ih =>
    refine .bind (h first scope) fun value => ?_
    rw [Value.isSignal_reword]
    refine .ite (.pure (Except.error value)) (.bind ih ?_)
    rintro (signal | values)
    · exact .pure (Except.error signal)
    · exact .pure (Except.ok (value :: values))

theorem echoes_apply (callee : Value) (values : List Value) :
    EchoesValue change (evaluator.apply callee values)
      (evaluator.apply (callee.reword change) (values.map (·.reword change))) := by
  cases callee with
  | function stamp closure =>
    simp only [Evaluator.apply, Value.reword, Closure.reword, List.length_map]
    refine .ite (.pure (Value.error _)) (.bind (.enclose _) fun scope => ?_)
    have hbindings : ((closure.parameters.map (·.mapToken fun _ => default)).map (·.name)).zip
        (values.map (·.reword change)) =
          Scope.rewordAll change ((closure.parameters.map (·.name)).zip values) := by
      rw [List.map_map, List.zip_map_right]
      rfl
    rw [hbindings]
    exact .bind (.bindAll scope _) fun _ => .unwrap (h (.block closure.brace closure.body) scope)
  | _ => exact .pure (Value.error _)

theorem echoes_evaluateWith (node : Node) (scope : ScopeId) :
    EchoesValue change (evaluateWith evaluator node scope)
      (evaluateWith evaluator (node.reword change) scope) := by
  cases node with
  | program statements => exact .unwrap (echoes_statements h scope .null statements)
  | block _ statements => exact echoes_statements h scope .null statements
  | expression _ inner => exact h inner scope
  | result _ inner =>
    exact .bind (h inner scope) fun value => .andThen (.pure (Value.returned value))
  | binding _ identifier inner =>
    exact .bind (h inner scope) fun value => .andThen <|
      .bind (.bindName scope identifier.name value) fun _ => .pure Value.null
  | integer _ value => exact .integer value
  | boolean _ value => exact .pure (Value.boolean value)
  | reference identifier => exact .reference scope identifier.name
  | unary _ operator operand =>
    refine .bind (h operand scope) fun value => .andThen ?_
    rw [Outcome.unary_reword]
    exact .outcome _
  | binary _ left operator right =>
    refine .bind (h left scope) fun value => .andThen <| .bind (h right scope) fun other =>
      .andThen ?_
    rw [Outcome.binary_reword]
    exact .outcome _
  | ifThen _ condition brace body =>
    refine .bind (h condition scope) fun value => .andThen ?_
    rw [Value.isTruthy_reword]
    exact .ite (h (.block brace body) scope) (.pure Value.null)
  | ifThenElse _ condition brace body elseBrace elseBody =>
    refine .bind (h condition scope) fun value => .andThen ?_
    rw [Value.isTruthy_reword]
    exact .ite (h (.block brace body) scope) (h (.block elseBrace elseBody) scope)
  | function _ parameters brace body => exact .function ⟨parameters, brace, body, scope⟩
  | call _ callee arguments =>
    refine .bind (h callee scope) fun function => .andThen <|
      .bind (echoes_arguments h scope arguments) ?_
    rintro (signal | values)
    · exact .pure signal
    · exact echoes_apply h function values
  | foreign name _ => exact .throw _

end Nodes

/-- **Evaluation does not look at tokens.**  If they are changed in a node and in the heap, then all
that changes of the result are its tokens. -/
theorem echoes_evaluate (change : Rewording) : ∀ depth node scope,
    EchoesValue change (evaluate depth node scope) (evaluate depth (node.reword change) scope)
  | 0, _, _ => .throw _
  | depth + 1, node, scope => echoes_evaluateWith (echoes_evaluate change depth) node scope

/-! ## What is seen -/

/-- What is seen of a value. -/
def Value.seen (value : Value) : ValueKind × String :=
  (value.kind, value.inspect)

/-- What is seen of a scope: the scope that it stands in, and its names with what they are bound to. -/
def Scope.seen (scope : Scope) : Option ScopeId × List (String × ValueKind × String) :=
  (scope.outer, scope.bindings.map fun binding => (binding.1, binding.2.seen))

/-- What is seen of a heap. -/
def Heap.seen (heap : Heap) : Array (Option ScopeId × List (String × ValueKind × String)) :=
  heap.scopes.map Scope.seen

/-- What is seen of an evaluation: its value, or why it is given up, and the heap that it leaves. -/
def seen : EStateM.Result Halt Heap Value →
    Except Halt (ValueKind × String) × Array (Option ScopeId × List (String × ValueKind × String))
  | .ok value heap => (.ok value.seen, heap.seen)
  | .error cause heap => (.error cause, heap.seen)

theorem Value.seen_gist (value : Value) : (value.reword .gist).seen = value.seen := by
  rw [seen, seen, kind_reword, inspect_gist]

theorem Heap.seen_gist (heap : Heap) : (heap.reword .gist).seen = heap.seen := by
  simp [seen, reword, Scope.seen, Scope.reword, Scope.rewordAll, Function.comp_def, Value.seen_gist]

theorem seen_gist (result : EStateM.Result Halt Heap Value) :
    seen (changeResult (Value.reword .gist) (Heap.reword .gist) result) = seen result := by
  cases result <;> simp only [changeResult, seen, Value.seen_gist, Heap.seen_gist]

/-- Nodes with the same gist show the same when they are evaluated. -/
theorem seen_eq_of_gist {first second : Node} (h : first.reword .gist = second.reword .gist)
    {heap heap' : Heap} (hheap : heap.reword .gist = heap'.reword .gist) (depth : Nat)
    (scope : ScopeId) :
    seen (evaluate depth first scope heap) = seen (evaluate depth second scope heap') := by
  rw [← seen_gist, ← echoes_evaluate .gist depth first scope heap, h, hheap,
    echoes_evaluate .gist depth second scope heap', seen_gist]

end MonkeyLang
