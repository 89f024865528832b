import MonkeyLang.Evaluation

/-!
# Writes stay where they are made

Evaluating a node in a scope binds names in that scope, and in scopes that are added on the way.  All
other scopes are left alone: those outside, the one that a called function was made in, and the one
that the evaluation of a caller goes on in.  In the scope itself no name gets lost, and the only names
that can be bound anew are those of the `let` statements of the node that stand in no function literal.
This holds whether evaluation comes to a value, to a failure, or is given up.

* `Node.boundNames` lists these names, and `Heap.Confined` says what they confine.
* `Heap.Extended` is the stronger fact about a call: it only adds scopes, whatever the body of the
  function binds, for it is evaluated in a scope of its own (`extends_apply`).
* `evaluate_confined` is the statement about evaluation.
-/

set_option autoImplicit false

namespace MonkeyLang

/-! ## The names that a node binds -/

namespace Node

mutual

/-- The names of the `let` statements in a node that stand in no function literal. -/
def boundNames : Node → List String
  | program statements | block _ statements => boundNamesAll statements
  | unary _ _ inner | result _ inner | expression _ inner => inner.boundNames
  | binary _ left _ right => left.boundNames ++ right.boundNames
  | ifThen _ condition _ body => condition.boundNames ++ boundNamesAll body
  | ifThenElse _ condition _ body _ elseBody =>
    condition.boundNames ++ (boundNamesAll body ++ boundNamesAll elseBody)
  | call _ callee arguments => callee.boundNames ++ boundNamesAll arguments
  | binding _ identifier value => identifier.name :: value.boundNames
  | reference _ | integer .. | boolean .. | function .. | foreign .. => []

/-- The names of the `let` statements in some nodes that stand in no function literal. -/
def boundNamesAll : List Node → List String
  | [] => []
  | first :: rest => first.boundNames ++ boundNamesAll rest

end

end Node

/-! ## Heaps before and after -/

namespace Heap

/-- Scopes were added, and those that were there before are as they were. -/
structure Extended (before after : Heap) : Prop where
  size : before.scopes.size ≤ after.scopes.size
  scopes : ∀ id < before.scopes.size, after.scopes[id]? = before.scopes[id]?

/-- Scopes were added.  Of those that were there before only the given one may have changed, and there
only the bindings of the given names: each of them may have been made or replaced, none removed. -/
structure Confined (scope : ScopeId) (names : List String) (before after : Heap) : Prop where
  size : before.scopes.size ≤ after.scopes.size
  others : ∀ id < before.scopes.size, id ≠ scope → after.scopes[id]? = before.scopes[id]?
  outer : (after.scope scope).outer = (before.scope scope).outer
  kept : ∀ name, (before.binding? scope name).isSome → (after.binding? scope name).isSome
  fixed : ∀ name ∉ names, after.binding? scope name = before.binding? scope name

variable {first second third : Heap} {scope : ScopeId} {names names' : List String}

theorem Extended.confined (h : first.Extended second) (known : scope < first.scopes.size) :
    first.Confined scope names second where
  size := h.size
  others id hid _ := h.scopes id hid
  outer := by rw [Heap.scope, Heap.scope, h.scopes scope known]
  kept name hsome := by rwa [binding?, h.scopes scope known]
  fixed name _ := by rw [binding?, binding?, h.scopes scope known]

/-- Changes to a scope that was not there before leave all others as they were. -/
theorem Confined.extended (h : second.Confined scope names third) (hfirst : first.Extended second)
    (fresh : first.scopes.size ≤ scope) : first.Extended third :=
  ⟨Nat.le_trans hfirst.size h.size, fun id known =>
    (h.others id (Nat.lt_of_lt_of_le known hfirst.size)
      (Nat.ne_of_lt (Nat.lt_of_lt_of_le known fresh))).trans (hfirst.scopes id known)⟩

theorem Confined.refl (heap : Heap) : heap.Confined scope names heap :=
  ⟨Nat.le_refl _, fun _ _ _ => rfl, rfl, fun _ => id, fun _ _ => rfl⟩

theorem Confined.trans (h : first.Confined scope names second)
    (h' : second.Confined scope names third) : first.Confined scope names third where
  size := Nat.le_trans h.size h'.size
  others id known hne :=
    (h'.others id (Nat.lt_of_lt_of_le known h.size) hne).trans (h.others id known hne)
  outer := h'.outer.trans h.outer
  kept name hsome := h'.kept name (h.kept name hsome)
  fixed name hname := (h'.fixed name hname).trans (h.fixed name hname)

theorem Confined.mono (h : first.Confined scope names second) (hsubset : names ⊆ names') :
    first.Confined scope names' second :=
  { h with fixed := fun name hname => h.fixed name fun hmem => hname (hsubset hmem) }

theorem extended_enclose (heap : Heap) (outer : Option ScopeId) :
    heap.Extended (heap.enclose outer).2 :=
  ⟨by simp [enclose], fun id known => by simp [enclose, Array.getElem?_push, Nat.ne_of_lt known]⟩

theorem confined_bind {heap : Heap} (known : scope < heap.scopes.size) {name : String}
    (hname : name ∈ names) (value : Value) :
    heap.Confined scope names (heap.bind scope name value) where
  size := by simp [bind]
  others id _ hne := by rw [bind, Array.getElem?_modify, if_neg (Ne.symm hne)]
  outer := by
    rw [Heap.scope, Heap.scope, bind, Array.getElem?_modify, if_pos rfl]
    cases heap.scopes[scope]? <;> rfl
  kept other hsome := by
    rw [binding?_bind heap known]
    split
    · rfl
    · exact hsome
  fixed other hother := by
    rw [binding?_bind heap known, if_neg]
    rintro ⟨-, rfl⟩
    exact hother hname

end Heap

/-! ## Evaluations -/

namespace Evaluation

variable {α β : Type} {scope : ScopeId} {names names' : List String}

/-- The heap that an evaluation leaves behind, even if it is given up. -/
def heapAfter (evaluation : Evaluation α) (heap : Heap) : Heap :=
  match evaluation heap with
  | .ok _ after => after
  | .error _ after => after

/-- From every heap that has the scope, the evaluation changes no other scope, and there no other
names. -/
def Confines (scope : ScopeId) (names : List String) (evaluation : Evaluation α) : Prop :=
  ∀ heap : Heap, scope < heap.scopes.size → heap.Confined scope names (evaluation.heapAfter heap)

namespace Confines

variable {evaluation : Evaluation α} {next : α → Evaluation β}

theorem mono (h : Confines scope names evaluation) (hsubset : names ⊆ names') :
    Confines scope names' evaluation :=
  fun heap known => (h heap known).mono hsubset

theorem pure (a : α) : Confines scope names (Pure.pure a : Evaluation α) :=
  fun heap _ => .refl heap

theorem throw (cause : Halt) : Confines scope names (throw cause : Evaluation α) :=
  fun heap _ => .refl heap

theorem bind (h : Confines scope names evaluation) (h' : ∀ a, Confines scope names (next a)) :
    Confines scope names (evaluation >>= next) := by
  intro heap known
  have hfirst := h heap known
  simp only [heapAfter, Bind.bind, EStateM.bind] at hfirst ⊢
  cases hrun : evaluation heap with
  | ok a middle =>
    rw [hrun] at hfirst
    exact hfirst.trans (h' a middle (Nat.lt_of_lt_of_le known hfirst.size))
  | error cause middle =>
    rw [hrun] at hfirst
    exact hfirst

theorem integer (value : Int) : Confines scope names (Evaluation.integer value) :=
  fun _ known => Heap.Extended.confined ⟨Nat.le_refl _, fun _ _ => rfl⟩ known

theorem function (closure : Closure) : Confines scope names (Evaluation.function closure) :=
  fun _ known => Heap.Extended.confined ⟨Nat.le_refl _, fun _ _ => rfl⟩ known

theorem outcome : ∀ outcome : Outcome, Confines scope names (Evaluation.outcome outcome)
  | .integer value => integer value
  | .boolean _ => pure _
  | .error _ => pure _

theorem reference (name : String) : Confines scope names (Evaluation.reference scope name) :=
  fun heap _ => .refl heap

theorem bindName {name : String} (hname : name ∈ names) (value : Value) :
    Confines scope names (Evaluation.bind scope name value) :=
  fun _ known => Heap.confined_bind known hname value

theorem bindAll : ∀ bindings : List (String × Value),
    Confines scope (bindings.map (·.1)) (Evaluation.bindAll scope bindings)
  | [] => pure ()
  | (_, value) :: rest =>
    bind (bindName List.mem_cons_self value) fun _ => (bindAll rest).mono (List.subset_cons_self _ _)

theorem andThen {next : Value → Evaluation Value} (value : Value)
    (h : Confines scope names (next value)) :
    Confines scope names (Evaluation.andThen value next) := by
  rw [Evaluation.andThen]
  split
  · exact pure value
  · exact h

end Confines

end Evaluation

/-! ## Nodes -/

section Nodes

open Evaluation

variable {evaluator : Evaluator}

/-- The evaluator confines every node to its scope and to the names that it binds. -/
def Evaluator.Confining (evaluator : Evaluator) : Prop :=
  ∀ node scope, Confines scope node.boundNames (evaluator node scope)

variable (h : evaluator.Confining)
include h

theorem confines_statements (scope : ScopeId) : ∀ (before : Value) (statements : List Node),
    Confines scope (Node.boundNamesAll statements) (evaluator.statements scope before statements)
  | before, [] => .pure before
  | _, first :: rest =>
    .bind ((h first scope).mono (List.subset_append_left _ _)) fun value => .andThen value <|
      (confines_statements scope value rest).mono (List.subset_append_right _ _)

theorem confines_arguments (scope : ScopeId) (arguments : List Node) :
    Confines scope (Node.boundNamesAll arguments) (evaluator.arguments scope arguments) := by
  induction arguments with
  | nil => exact .pure _
  | cons first rest ih =>
    refine .bind ((h first scope).mono (List.subset_append_left _ _)) fun value => ?_
    split
    · exact .pure _
    · exact .bind (ih.mono (List.subset_append_right _ _)) fun _ => .pure _

/-- **A call only adds scopes.**  The body of the function binds names, but in a scope that was not
there before. -/
theorem extends_apply (callee : Value) (values : List Value) (heap : Heap) :
    heap.Extended ((evaluator.apply callee values).heapAfter heap) := by
  have unchanged : heap.Extended heap := ⟨Nat.le_refl _, fun _ _ => rfl⟩
  cases callee with
  | function stamp closure =>
    rw [Evaluator.apply]
    split
    · exact unchanged
    · have hcall : Confines heap.scopes.size
          ((closure.parameters.map (·.name)).zip values |>.map (·.1))
          (bindAll heap.scopes.size ((closure.parameters.map (·.name)).zip values)) := .bindAll _
      have hbody := h (.block closure.brace closure.body) heap.scopes.size
      have hrun := (hcall.mono (List.subset_append_left _ _)).bind fun _ =>
        (hbody.mono (List.subset_append_right _ _)).bind fun value => .pure value.unwrap
      have henclose := heap.extended_enclose (some closure.scope)
      exact (hrun (heap.enclose (some closure.scope)).2 (by simp [Heap.enclose])).extended henclose
        (Nat.le_refl _)
  | _ => exact unchanged

theorem confines_apply (scope : ScopeId) (names : List String) (callee : Value)
    (values : List Value) : Confines scope names (evaluator.apply callee values) :=
  fun heap known => (extends_apply h callee values heap).confined known

theorem confining_evaluateWith : Evaluator.Confining (evaluateWith evaluator) := by
  intro node scope
  cases node with
  | program statements =>
    exact .bind (confines_statements h scope .null statements) fun _ => .pure _
  | block _ statements => exact confines_statements h scope .null statements
  | expression _ inner => exact h inner scope
  | result _ inner => exact .bind (h inner scope) fun value => .andThen value (.pure _)
  | binding _ identifier inner =>
    refine .bind ((h inner scope).mono (List.subset_cons_self _ _)) fun value => .andThen value ?_
    exact .bind (.bindName List.mem_cons_self value) fun _ => .pure _
  | integer _ value => exact .integer value
  | boolean _ value => exact .pure _
  | reference identifier => exact .reference identifier.name
  | unary _ operator operand =>
    exact .bind (h operand scope) fun value => .andThen value (.outcome _)
  | binary _ left operator right =>
    refine .bind ((h left scope).mono (List.subset_append_left _ _)) fun value => .andThen value ?_
    refine .bind ((h right scope).mono (List.subset_append_right _ _)) fun other => ?_
    exact .andThen other (.outcome _)
  | ifThen _ condition brace body =>
    refine .bind ((h condition scope).mono (List.subset_append_left _ _)) fun value =>
      .andThen value ?_
    split
    · exact (h (.block brace body) scope).mono (List.subset_append_right _ _)
    · exact .pure _
  | ifThenElse _ condition brace body elseBrace elseBody =>
    refine .bind ((h condition scope).mono (List.subset_append_left _ _)) fun value =>
      .andThen value ?_
    split
    · exact (h (.block brace body) scope).mono fun name hname =>
        List.mem_append_right _ (List.mem_append_left _ hname)
    · exact (h (.block elseBrace elseBody) scope).mono fun name hname =>
        List.mem_append_right _ (List.mem_append_right _ hname)
  | function _ parameters brace body => exact .function _
  | call _ callee arguments =>
    refine .bind ((h callee scope).mono (List.subset_append_left _ _)) fun function =>
      .andThen function ?_
    refine .bind ((confines_arguments h scope arguments).mono (List.subset_append_right _ _)) ?_
    rintro (signal | values)
    · exact .pure _
    · exact confines_apply h scope _ function values
  | foreign name _ => exact .throw _

end Nodes

theorem confining_evaluate : ∀ depth, (evaluate depth).Confining
  | 0, _, _ => .throw _
  | depth + 1, node, scope => confining_evaluateWith (confining_evaluate depth) node scope

/-- **Writes are confined to the scope of the evaluation**, and there to the names of the `let`
statements outside of function literals, whichever way the evaluation ends.  A call on its own changes
no scope at all, not even the one that the function was made in or the one that it is called from. -/
theorem evaluate_confined (depth : Nat) (node : Node) {scope : ScopeId} {heap : Heap}
    (known : scope < heap.scopes.size) :
    heap.Confined scope node.boundNames ((evaluate depth node scope).heapAfter heap) ∧
      ∀ (callee : Value) (values : List Value),
        heap.Extended (((evaluate depth).apply callee values).heapAfter heap) :=
  ⟨confining_evaluate depth node scope heap known,
    fun callee values => extends_apply (confining_evaluate depth) callee values heap⟩

/-- In `if (true) { let y = fn() { let x = 1 }(); }` only `y` is bound in the scope. -/
theorem evaluate_confined_call :
    let word (kind : TokenKind) (literal : String) : Token := ⟨kind, literal, {}⟩
    let binding (name : String) (value : Node) : Node :=
      .binding (word .letWord "let") ⟨word .ident name, name⟩ value
    let brace := word .lbrace "\x7b"
    let node : Node := .ifThen (word .ifWord "if") (.boolean (word .trueWord "true") true) brace
      [binding "y" (.call (word .lparen "(") (.function (word .function "fn") [] brace
        [binding "x" (.integer (word .int "1") 1)]) [])]
    let after := (evaluate 9 node 0).heapAfter .initial
    0 < Heap.initial.scopes.size ∧ Heap.initial.Confined 0 node.boundNames after ∧
      node.boundNames = ["y"] ∧ after.scopes.size = 2 ∧
      (after.scope 0).bindings.map (·.1) = ["y"] ∧ (after.scope 1).bindings.map (·.1) = ["x"] :=
  ⟨by decide, (evaluate_confined 9 _ (by decide)).1, rfl, rfl, rfl, rfl⟩

end MonkeyLang
