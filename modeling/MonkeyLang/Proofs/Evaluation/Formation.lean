import MonkeyLang.Proofs.Evaluation.Confinement
import MonkeyLang.Proofs.Parsing.Recovery

/-!
# Heaps stay well formed

Functions hold on to the scopes that they were made in, and these scopes may bind the very functions.
So there are cycles in a heap, and what keeps lookups from going round in them is that they follow
nothing but the links from scopes to the scopes around them.  A scope is made after the one around it,
and this order is what makes every way outward end.

A heap is `Heap.WellFormed` if scopes stand in older scopes, and whatever is bound `Value.Fits`: its
integers are words, and its scope is there.  Evaluation keeps heaps well formed (`sustaining_evaluate`),
as long as the integers that are written in the nodes are words.  Parsed programs have no others
(`Node.inRange_of_validExpression`).

* `Heap.Outward` says what it is to follow the links outward from a scope up to the last one, and
  `Heap.WellFormed.outward_chain` that the lookup does.
* `Heap.LeadsTo` lists the heaps that programs lead to, run one after the other.
* `leadsTo_wellFormed` says all of this about these heaps.
-/

set_option autoImplicit false

namespace MonkeyLang

/-! ## The integers in a tree -/

namespace Node

mutual

/-- The integers that are written in a tree are words. -/
def InRange : Node → Prop
  | program statements | block _ statements => AllInRange statements
  | integer _ value => Word.InRange value
  | unary _ _ inner | result _ inner | expression _ inner | binding _ _ inner => inner.InRange
  | binary _ left _ right => left.InRange ∧ right.InRange
  | ifThen _ condition _ body => condition.InRange ∧ AllInRange body
  | ifThenElse _ condition _ body _ elseBody =>
    condition.InRange ∧ AllInRange body ∧ AllInRange elseBody
  | function _ _ _ body => AllInRange body
  | call _ callee arguments => callee.InRange ∧ AllInRange arguments
  | reference _ | boolean .. | foreign .. => True

/-- The integers that are written in some trees are words. -/
def AllInRange : List Node → Prop
  | [] => True
  | first :: rest => first.InRange ∧ AllInRange rest

end

mutual

theorem inRange_of_validExpression : ∀ node : Node, node.ValidExpression → node.InRange
  | integer _ value, h => by
    have hlargest : (Parser.largestInteger : Int) = 0x7fffffffffffffff := rfl
    have hlower := h.1
    have hupper := h.2
    exact ⟨by omega, by omega⟩
  | reference _, _ | boolean .., _ => True.intro
  | unary _ _ operand, h => inRange_of_validExpression operand h.2
  | binary _ left _ right, h =>
    ⟨inRange_of_validExpression left h.2.1, inRange_of_validExpression right h.2.2⟩
  | ifThen _ condition _ body, h =>
    ⟨inRange_of_validExpression condition h.1, allInRange_of_validStatements body h.2⟩
  | ifThenElse _ condition _ body _ elseBody, h =>
    ⟨inRange_of_validExpression condition h.1, allInRange_of_validStatements body h.2.1,
      allInRange_of_validStatements elseBody h.2.2⟩
  | function _ _ _ body, h => allInRange_of_validStatements body h.2.2
  | call _ callee arguments, h =>
    ⟨inRange_of_validExpression callee h.1, allInRange_of_validExpressions arguments h.2⟩
  | program _, h | binding .., h | result .., h | expression .., h | block .., h | foreign .., h =>
    h.elim

theorem inRange_of_validStatement : ∀ node : Node, node.ValidStatement → node.InRange
  | binding _ _ value, h => inRange_of_validExpression value h.2.2
  | result _ value, h => inRange_of_validExpression value h.2
  | expression _ inner, h => inRange_of_validExpression inner h
  | program _, h | reference _, h | integer .., h | boolean .., h | unary .., h | binary .., h
  | ifThen .., h | ifThenElse .., h | function .., h | call .., h | block .., h | foreign .., h =>
    h.elim

theorem allInRange_of_validExpressions : ∀ nodes : List Node, ValidExpressions nodes →
    AllInRange nodes
  | [], _ => True.intro
  | first :: rest, h =>
    ⟨inRange_of_validExpression first h.1, allInRange_of_validExpressions rest h.2⟩

theorem allInRange_of_validStatements : ∀ nodes : List Node, ValidStatements nodes →
    AllInRange nodes
  | [], _ => True.intro
  | first :: rest, h =>
    ⟨inRange_of_validStatement first h.1, allInRange_of_validStatements rest h.2⟩

end

end Node

/-- The integers of a parsed program are words. -/
theorem inRange_of_parse {source : String} {parsed : Parsed} (h : parse source = .ok parsed) :
    parsed.program.InRange :=
  Node.allInRange_of_validStatements _ (valid_of_parse h)

/-! ## Values where there are some scopes -/

/-- A value that makes sense where there are so many scopes: integers are words, and functions were
made in one of the scopes, with nothing but words for integers in their bodies. -/
def Value.Fits (scopes : Nat) : Value → Prop
  | integer _ value => Word.InRange value
  | function _ closure => closure.scope < scopes ∧ Node.AllInRange closure.body
  | returned value => value.Fits scopes
  | _ => True

namespace Value

variable {scopes scopes' : Nat}

theorem Fits.mono {value : Value} (h : value.Fits scopes) (hle : scopes ≤ scopes') :
    value.Fits scopes' := by
  induction value with
  | function _ closure => exact ⟨Nat.lt_of_lt_of_le h.1 hle, h.2⟩
  | returned value ih => exact ih h
  | _ => exact h

theorem Fits.unwrap {value : Value} (h : value.Fits scopes) : value.unwrap.Fits scopes := by
  cases value <;> exact h

end Value

/-- What an operator gives, if it is an integer, is a word. -/
def Outcome.InRange : Outcome → Prop
  | integer value => Word.InRange value
  | _ => True

namespace Outcome

theorem inRange_unary (operator : String) (operand : Value) : (unary operator operand).InRange := by
  unfold unary
  split
  · exact True.intro
  · exact Word.inRange_wrap _
  · exact True.intro

theorem inRange_ofIntegers (operator : String) (left right : Int) :
    (ofIntegers operator left right).InRange := by
  unfold ofIntegers
  split
  case h_1 | h_2 | h_3 => exact Word.inRange_wrap _
  case h_4 =>
    split
    · exact True.intro
    · exact Word.inRange_wrap _
  all_goals exact True.intro

theorem inRange_binary (operator : String) (left right : Value) :
    (binary operator left right).InRange := by
  unfold binary
  split
  · exact True.intro
  · split
    · exact inRange_ofIntegers operator _ _
    · unfold ofBooleans
      split <;> exact True.intro
    · unfold ofOthers
      split <;> exact True.intro

end Outcome

/-! ## Well-formed heaps -/

namespace Heap

variable {heap : Heap}

/-- Every scope stands in an older one or in none, and whatever is bound makes sense. -/
structure WellFormed (heap : Heap) : Prop where
  outer : ∀ (id outer : ScopeId) (scope : Scope), heap.scopes[id]? = some scope →
    scope.outer = some outer → outer < id
  bound : ∀ id name value, heap.binding? id name = some value → value.Fits heap.scopes.size

theorem wellFormed_initial : initial.WellFormed := by
  refine ⟨?_, ?_⟩
  · rintro (_ | id) outer scope hscope houter
    · cases hscope
      cases houter
    · cases hscope
  · rintro (_ | id) name value hfound <;> cases hfound

theorem WellFormed.lookup (h : heap.WellFormed) {scope : ScopeId} {name : String} {value : Value}
    (hfound : heap.lookup scope name = some value) : value.Fits heap.scopes.size := by
  obtain ⟨id, -, hid⟩ := List.exists_of_findSome?_eq_some hfound
  exact h.bound id name value hid

theorem size_bind (scope : ScopeId) (name : String) (value : Value) :
    (heap.bind scope name value).scopes.size = heap.scopes.size := by
  simp [bind]

theorem WellFormed.bind (h : heap.WellFormed) {scope : ScopeId} (known : scope < heap.scopes.size)
    (name : String) {value : Value} (hvalue : value.Fits heap.scopes.size) :
    (heap.bind scope name value).WellFormed := by
  refine ⟨fun id outer found hfound houter => ?_, fun id other bound hbound => ?_⟩
  · rw [Heap.bind, Array.getElem?_modify] at hfound
    split at hfound
    · obtain ⟨before, hbefore, rfl⟩ := Option.map_eq_some_iff.1 hfound
      exact h.outer id outer before hbefore houter
    · exact h.outer id outer found hfound houter
  · rw [size_bind]
    rw [binding?_bind heap known] at hbound
    split at hbound
    · exact Option.some.inj hbound ▸ hvalue
    · exact h.bound id other bound hbound

/-- A new scope stands in one that is there already. -/
theorem WellFormed.enclose (h : heap.WellFormed) {outer : ScopeId}
    (known : outer < heap.scopes.size) : (heap.enclose (some outer)).2.WellFormed := by
  refine ⟨fun id outer' found hfound houter => ?_, fun id name bound hbound => ?_⟩
  · rw [Heap.enclose, Array.getElem?_push] at hfound
    split at hfound
    · rename_i hnew
      cases hfound
      cases houter
      exact hnew ▸ known
    · exact h.outer id outer' found hfound houter
  · rw [binding?, Heap.enclose, Array.getElem?_push] at hbound
    split at hbound
    · cases hbound
    · exact (h.bound id name bound hbound).mono (by simp [Heap.enclose])

theorem WellFormed.stamp (h : heap.WellFormed) :
    WellFormed { heap with stamps := heap.stamps + 1 } :=
  ⟨h.outer, h.bound⟩

/-! ### The way outward -/

/-- The scopes from one on outward, up to one that stands in no other. -/
inductive Outward (heap : Heap) : ScopeId → List ScopeId → Prop
  | root {id : ScopeId} {scope : Scope} (hscope : heap.scopes[id]? = some scope)
      (houter : scope.outer = none) : Outward heap id [id]
  | inside {id outer : ScopeId} {ids : List ScopeId} {scope : Scope}
      (hscope : heap.scopes[id]? = some scope) (houter : scope.outer = some outer)
      (h : Outward heap outer ids) : Outward heap id (id :: ids)

/-- There is one way outward from each scope. -/
theorem Outward.unique {id : ScopeId} {ids ids' : List ScopeId} (h : heap.Outward id ids)
    (h' : heap.Outward id ids') : ids = ids' := by
  induction h generalizing ids' with
  | root hscope houter =>
    cases h' with
    | root => rfl
    | inside hscope' houter' =>
      cases hscope.symm.trans hscope'
      cases houter.symm.trans houter'
  | inside hscope houter _ ih =>
    cases h' with
    | root hscope' houter' =>
      cases hscope.symm.trans hscope'
      cases houter.symm.trans houter'
    | inside hscope' houter' h' =>
      cases hscope.symm.trans hscope'
      cases houter.symm.trans houter'
      rw [ih h']

/-- Every scope stands in an older one or in none. -/
def Layered (heap : Heap) : Prop :=
  ∀ (id outer : ScopeId) (scope : Scope), heap.scopes[id]? = some scope →
    scope.outer = some outer → outer < id

/-- The way outward goes down through the numbers of the scopes, so it ends. -/
theorem Layered.outward_chainUpTo (h : heap.Layered) : ∀ {length : Nat} {id : ScopeId}, id < length →
    id < heap.scopes.size → heap.Outward id (heap.chainUpTo length id)
  | length + 1, id, hlength, known => by
    have hscope : heap.scopes[id]? = some heap.scopes[id] := Array.getElem?_eq_getElem known
    simp only [chainUpTo, hscope]
    cases houter : heap.scopes[id].outer with
    | none => exact .root hscope houter
    | some outer =>
      have hlt : outer < id := h id outer _ hscope houter
      exact .inside hscope houter
        (outward_chainUpTo h (Nat.lt_of_lt_of_le hlt (Nat.le_of_lt_succ hlength))
          (Nat.lt_trans hlt known))

theorem Layered.outward_chain (h : heap.Layered) {id : ScopeId} (known : id < heap.scopes.size) :
    heap.Outward id (heap.chain id) :=
  h.outward_chainUpTo (Nat.lt_succ_self id) known

namespace WellFormed

variable (h : heap.WellFormed)
include h

theorem layered : heap.Layered := h.outer

theorem outward_chain {id : ScopeId} (known : id < heap.scopes.size) :
    heap.Outward id (heap.chain id) :=
  h.layered.outward_chain known

/-- On the way outward the numbers of the scopes fall. -/
theorem falls {id : ScopeId} {ids : List ScopeId} (hids : heap.Outward id ids) :
    (∀ other ∈ ids, other ≤ id) ∧ ids.Pairwise (· > ·) := by
  induction hids with
  | root => simp
  | inside hscope houter _ ih =>
    have hlt := h.outer _ _ _ hscope houter
    have hrest : ∀ other ∈ _, other < _ := fun other hother =>
      Nat.lt_of_le_of_lt (ih.1 other hother) hlt
    refine ⟨fun other hother => ?_, List.pairwise_cons.2 ⟨hrest, ih.2⟩⟩
    rcases List.mem_cons.1 hother with rfl | hother
    · exact Nat.le_refl _
    · exact Nat.le_of_lt (hrest other hother)

/-- A lookup goes from scope to scope until it finds the name or comes to the last scope. -/
theorem lookup_eq {id : ScopeId} (known : id < heap.scopes.size) (name : String) :
    heap.lookup id name = (heap.binding? id name).or
      ((heap.scope id).outer.bind (heap.lookup · name)) := by
  have hscope : heap.scopes[id]? = some heap.scopes[id] := Array.getElem?_eq_getElem known
  have hway := h.outward_chain known
  rw [Heap.scope, hscope, Option.getD_some, Heap.lookup]
  generalize heap.chain id = ids at hway
  cases hway with
  | root hscope' houter =>
    cases hscope.symm.trans hscope'
    rw [houter, List.findSome?_singleton, Option.bind_none, Option.or_none]
  | inside hscope' houter hrest =>
    cases hscope.symm.trans hscope'
    have hlt := h.outer _ _ _ hscope houter
    rw [houter, Option.bind_some, Heap.lookup,
      ← hrest.unique (h.outward_chain (Nat.lt_trans hlt known)), List.findSome?_cons]
    cases heap.binding? id name <;> rfl

end WellFormed

end Heap

/-! ## Evaluations -/

namespace Evaluation

variable {α β : Type} {size : Nat} {good : Nat → α → Prop} {good' : Nat → β → Prop}

/-- From every well-formed heap with at least so many scopes the evaluation leads to a well-formed heap
with no fewer scopes, and the property holds of its result where there are so many. -/
def Sustains (size : Nat) (good : Nat → α → Prop) (evaluation : Evaluation α) : Prop :=
  ∀ heap : Heap, heap.WellFormed → size ≤ heap.scopes.size →
    match evaluation heap with
    | .ok a after => after.WellFormed ∧ heap.scopes.size ≤ after.scopes.size ∧
        good after.scopes.size a
    | .error _ after => after.WellFormed ∧ heap.scopes.size ≤ after.scopes.size

/-- A value that makes sense. -/
abbrev SustainsToValue (size : Nat) : Evaluation Value → Prop :=
  Sustains size Value.Fits

namespace Sustains

variable {evaluation : Evaluation α} {next : α → Evaluation β}

theorem heapAfter (h : Sustains size good evaluation) {heap : Heap} (hformed : heap.WellFormed)
    (hsize : size ≤ heap.scopes.size) : (evaluation.heapAfter heap).WellFormed := by
  have hrun := h heap hformed hsize
  rw [Evaluation.heapAfter]
  revert hrun
  cases evaluation heap with
  | ok a after | error cause after => exact And.left

theorem pure {a : α} (h : ∀ size', size ≤ size' → good size' a) :
    Sustains size good (Pure.pure a) :=
  fun _ hformed hsize => ⟨hformed, Nat.le_refl _, h _ hsize⟩

theorem throw (cause : Halt) : Sustains size good (throw cause : Evaluation α) :=
  fun _ hformed _ => ⟨hformed, Nat.le_refl _⟩

theorem bind (h : Sustains size good evaluation)
    (h' : ∀ a size', size ≤ size' → good size' a → Sustains size' good' (next a)) :
    Sustains size good' (evaluation >>= next) := by
  intro heap hformed hsize
  have hfirst := h heap hformed hsize
  simp only [Bind.bind, EStateM.bind]
  cases hrun : evaluation heap with
  | ok a middle =>
    rw [hrun] at hfirst
    obtain ⟨hmiddle, hle, ha⟩ := hfirst
    have hsecond := h' a _ (Nat.le_trans hsize hle) ha middle hmiddle (Nat.le_refl _)
    simp only
    split at hsecond
    · exact ⟨hsecond.1, Nat.le_trans hle hsecond.2.1, hsecond.2.2⟩
    · exact ⟨hsecond.1, Nat.le_trans hle hsecond.2⟩
  | error cause middle =>
    rw [hrun] at hfirst
    exact hfirst

theorem integer {value : Int} (h : Word.InRange value) :
    SustainsToValue size (Evaluation.integer value) :=
  fun _ hformed _ => ⟨hformed.stamp, Nat.le_refl _, h⟩

theorem function {closure : Closure} (hscope : closure.scope < size)
    (hbody : Node.AllInRange closure.body) :
    SustainsToValue size (Evaluation.function closure) :=
  fun _ hformed hsize =>
    ⟨hformed.stamp, Nat.le_refl _, Nat.lt_of_lt_of_le hscope hsize, hbody⟩

theorem outcome : ∀ {outcome : Outcome}, outcome.InRange →
    SustainsToValue size (Evaluation.outcome outcome)
  | .integer _, h => integer h
  | .boolean _, _ => pure fun _ _ => True.intro
  | .error _, _ => pure fun _ _ => True.intro

theorem reference (scope : ScopeId) (name : String) :
    SustainsToValue size (Evaluation.reference scope name) := by
  intro heap hformed _
  refine ⟨hformed, Nat.le_refl _, ?_⟩
  cases hfound : heap.lookup scope name with
  | none => exact True.intro
  | some value => exact hformed.lookup hfound

theorem bindName {scope : ScopeId} (hscope : scope < size) (name : String) {value : Value}
    (hvalue : value.Fits size) :
    Sustains size (fun _ _ => True) (Evaluation.bind scope name value) :=
  fun heap hformed hsize =>
    ⟨hformed.bind (Nat.lt_of_lt_of_le hscope hsize) name (hvalue.mono hsize),
      Nat.le_of_eq (heap.size_bind scope name value).symm, True.intro⟩

theorem bindAll {scope : ScopeId} : ∀ {size : Nat} {bindings : List (String × Value)}, scope < size →
    (∀ binding ∈ bindings, binding.2.Fits size) →
    Sustains size (fun _ _ => True) (Evaluation.bindAll scope bindings)
  | _, [], _, _ => pure fun _ _ => True.intro
  | _, (name, _) :: _, hscope, h =>
    bind (bindName hscope name (h _ List.mem_cons_self)) fun _ _ hle _ =>
      bindAll (Nat.lt_of_lt_of_le hscope hle) fun binding hbinding =>
        (h binding (List.mem_cons_of_mem _ hbinding)).mono hle

theorem enclose {outer : ScopeId} (houter : outer < size) :
    Sustains size (fun size' id => id < size') (Evaluation.enclose (some outer)) :=
  fun heap hformed hsize =>
    ⟨hformed.enclose (Nat.lt_of_lt_of_le houter hsize), by simp, by simp⟩

theorem andThen {value : Value} {next : Value → Evaluation Value} (hvalue : value.Fits size)
    (h : SustainsToValue size (next value)) :
    SustainsToValue size (Evaluation.andThen value next) := by
  rw [Evaluation.andThen]
  split
  · exact pure fun _ hle => hvalue.mono hle
  · exact h

theorem unwrap {evaluation : Evaluation Value} (h : SustainsToValue size evaluation) :
    SustainsToValue size (evaluation >>= fun value => Pure.pure value.unwrap) :=
  bind h fun _ _ _ hvalue => pure fun _ hle => hvalue.unwrap.mono hle

end Sustains

end Evaluation

/-! ## Nodes -/

section Nodes

open Evaluation

variable {evaluator : Evaluator}

/-- The evaluator keeps heaps well formed, in every scope that is there. -/
def Evaluator.Sustaining (evaluator : Evaluator) : Prop :=
  ∀ (node : Node) (scope : ScopeId) (size : Nat), node.InRange → scope < size →
    SustainsToValue size (evaluator node scope)

variable (h : evaluator.Sustaining)
include h

theorem sustains_statements {scope : ScopeId} : ∀ {size : Nat} {before : Value}
    (statements : List Node), Node.AllInRange statements → scope < size → before.Fits size →
    SustainsToValue size (evaluator.statements scope before statements)
  | _, _, [], _, _, hbefore => .pure fun _ hle => hbefore.mono hle
  | size, _, first :: rest, hrange, hscope, _ =>
    .bind (h first scope size hrange.1 hscope) fun _ _ hle hvalue => .andThen hvalue <|
      sustains_statements rest hrange.2 (Nat.lt_of_lt_of_le hscope hle) hvalue

theorem sustains_arguments {scope : ScopeId} : ∀ {size : Nat} (arguments : List Node),
    Node.AllInRange arguments → scope < size →
    Sustains size (fun size' => fun
      | .error signal => signal.Fits size'
      | .ok values => ∀ value ∈ values, value.Fits size') (evaluator.arguments scope arguments)
  | _, [], _, _ => .pure (by simp)
  | size, first :: rest, hrange, hscope => by
    refine .bind (h first scope size hrange.1 hscope) fun value middle hle hvalue => ?_
    split
    · exact .pure fun _ hle => hvalue.mono hle
    · refine .bind (sustains_arguments rest hrange.2 (Nat.lt_of_lt_of_le hscope hle)) ?_
      rintro (signal | values) size' hle' hrest
      · exact .pure fun _ hle => hrest.mono hle
      · refine .pure fun _ hle'' => List.forall_mem_cons.2 ⟨?_, fun other hother => ?_⟩
        · exact hvalue.mono (Nat.le_trans hle' hle'')
        · exact (hrest other hother).mono hle''

/-- The new scope of a call stands in the scope of the function, which is there. -/
theorem sustains_apply {size : Nat} {callee : Value} {values : List Value}
    (hcallee : callee.Fits size) (hvalues : ∀ value ∈ values, value.Fits size) :
    SustainsToValue size (evaluator.apply callee values) := by
  cases callee with
  | function stamp closure =>
    rw [Evaluator.apply]
    split
    · exact .pure fun _ _ => True.intro
    · refine .bind (.enclose hcallee.1) fun scope size₁ hle₁ hscope => ?_
      refine .bind (.bindAll hscope fun binding hbinding => ?_) fun _ size₂ hle₂ _ => ?_
      · exact (hvalues _ (List.of_mem_zip hbinding).2).mono hle₁
      · exact .unwrap (h _ scope size₂ hcallee.2 (Nat.lt_of_lt_of_le hscope hle₂))
  | _ => exact .pure fun _ _ => True.intro

theorem sustaining_evaluateWith : Evaluator.Sustaining (evaluateWith evaluator) := by
  intro node scope size hrange hscope
  cases node with
  | program statements =>
    exact .unwrap (sustains_statements h statements hrange hscope True.intro)
  | block _ statements => exact sustains_statements h statements hrange hscope True.intro
  | expression _ inner => exact h inner scope size hrange hscope
  | result _ inner =>
    exact .bind (h inner scope size hrange hscope) fun value _ _ hvalue => .andThen hvalue <|
      .pure fun _ hle => hvalue.mono hle
  | binding _ identifier inner =>
    refine .bind (h inner scope size hrange hscope) fun value _ hle hvalue => .andThen hvalue ?_
    exact .bind (.bindName (Nat.lt_of_lt_of_le hscope hle) _ hvalue) fun _ _ _ _ =>
      .pure fun _ _ => True.intro
  | integer _ value => exact .integer hrange
  | boolean _ value => exact .pure fun _ _ => True.intro
  | reference identifier => exact .reference scope identifier.name
  | unary _ operator operand =>
    exact .bind (h operand scope size hrange hscope) fun value _ _ hvalue => .andThen hvalue <|
      .outcome (Outcome.inRange_unary operator value)
  | binary _ left operator right =>
    refine .bind (h left scope size hrange.1 hscope) fun value size' hle hvalue =>
      .andThen hvalue ?_
    exact .bind (h right scope size' hrange.2 (Nat.lt_of_lt_of_le hscope hle))
      fun other _ _ hother => .andThen hother (.outcome (Outcome.inRange_binary operator value other))
  | ifThen _ condition brace body =>
    refine .bind (h condition scope size hrange.1 hscope) fun value size' hle hvalue =>
      .andThen hvalue ?_
    split
    · exact h (.block brace body) scope size' hrange.2 (Nat.lt_of_lt_of_le hscope hle)
    · exact .pure fun _ _ => True.intro
  | ifThenElse _ condition brace body elseBrace elseBody =>
    refine .bind (h condition scope size hrange.1 hscope) fun value size' hle hvalue =>
      .andThen hvalue ?_
    split
    · exact h (.block brace body) scope size' hrange.2.1 (Nat.lt_of_lt_of_le hscope hle)
    · exact h (.block elseBrace elseBody) scope size' hrange.2.2 (Nat.lt_of_lt_of_le hscope hle)
  | function _ parameters brace body => exact .function hscope hrange
  | call _ callee arguments =>
    refine .bind (h callee scope size hrange.1 hscope) fun function size₁ hle₁ hfunction =>
      .andThen hfunction ?_
    refine .bind (sustains_arguments h arguments hrange.2 (Nat.lt_of_lt_of_le hscope hle₁)) ?_
    rintro (signal | values) size₂ hle₂ hvalues
    · exact .pure fun _ hle => hvalues.mono hle
    · exact sustains_apply h (hfunction.mono hle₂) hvalues
  | foreign name _ => exact .throw _

end Nodes

/-- Evaluation of whatever depth keeps heaps well formed. -/
theorem sustaining_evaluate : ∀ depth, (evaluate depth).Sustaining
  | 0, _, _, _, _, _ => .throw _
  | depth + 1, node, scope, size, hrange, hscope =>
    sustaining_evaluateWith (sustaining_evaluate depth) node scope size hrange hscope

/-! ## Programs one after the other -/

/-- The heaps that parsed programs lead to from some heap, run one after the other in scopes that are
there by then, each down to some depth.  It does not matter how a run ends. -/
inductive Heap.LeadsTo (start : Heap) : Heap → Prop
  | start : LeadsTo start start
  | run {heap : Heap} {source : String} {parsed : Parsed} {scope : ScopeId} (h : start.LeadsTo heap)
      (hparse : parse source = .ok parsed) (known : scope < heap.scopes.size) (depth : Nat) :
      LeadsTo start ((evaluate depth parsed.program scope).heapAfter heap)

/-- Scopes were added, and those that were there before stand in the scopes that they stood in. -/
structure Heap.Grown (before after : Heap) : Prop where
  size : before.scopes.size ≤ after.scopes.size
  outer : ∀ id < before.scopes.size, (after.scope id).outer = (before.scope id).outer

namespace Heap

variable {first second third : Heap}

theorem Grown.trans (h : first.Grown second) (h' : second.Grown third) : first.Grown third where
  size := Nat.le_trans h.size h'.size
  outer id known := (h'.outer id (Nat.lt_of_lt_of_le known h.size)).trans (h.outer id known)

theorem Confined.grown {scope : ScopeId} {names : List String}
    (h : first.Confined scope names second) : first.Grown second where
  size := h.size
  outer id known := by
    by_cases hid : id = scope
    · exact hid ▸ h.outer
    · rw [Heap.scope, Heap.scope, h.others id known hid]

theorem LeadsTo.grown (h : first.LeadsTo second) : first.Grown second := by
  induction h with
  | start => exact ⟨Nat.le_refl _, fun _ _ => rfl⟩
  | @run heap _ parsed scope _ _ known depth ih =>
    exact ih.trans (confining_evaluate depth parsed.program scope heap known).grown

theorem LeadsTo.wellFormed (h : first.LeadsTo second) (hfirst : first.WellFormed) :
    second.WellFormed := by
  induction h with
  | start => exact hfirst
  | @run heap _ parsed scope _ hparse known depth ih =>
    exact (sustaining_evaluate depth parsed.program scope _ (inRange_of_parse hparse) known).heapAfter
      ih (Nat.le_refl _)

end Heap

/-- **The heap stays well formed** while programs are run, however they end.  From every scope the links
outward lead through ever older scopes to one that stands in none, and a lookup follows them; whatever
is bound, and whatever a program comes to, is a word if it is an integer, and was made in a scope of the
heap if it is a function; and no scope is ever removed or put into another one. -/
theorem leadsTo_wellFormed {heap : Heap} (h : Heap.initial.LeadsTo heap) :
    (∀ id < heap.scopes.size, heap.Outward id (heap.chain id) ∧ (heap.chain id).Pairwise (· > ·) ∧
      ∀ name, heap.lookup id name =
        (heap.binding? id name).or ((heap.scope id).outer.bind (heap.lookup · name))) ∧
    (∀ id name value, heap.binding? id name = some value → value.Fits heap.scopes.size) ∧
    (∀ later, heap.LeadsTo later → heap.Grown later) ∧
    ∀ (source : String) (parsed : Parsed) (scope : ScopeId) (depth : Nat) (value : Value)
      (after : Heap), parse source = .ok parsed → scope < heap.scopes.size →
      evaluate depth parsed.program scope heap = .ok value after → value.Fits after.scopes.size := by
  have hformed := h.wellFormed Heap.wellFormed_initial
  refine ⟨fun id known => ?_, hformed.bound, fun _ => Heap.LeadsTo.grown, ?_⟩
  · have hway := hformed.outward_chain known
    exact ⟨hway, (hformed.falls hway).2, hformed.lookup_eq known⟩
  · intro source parsed scope depth value after hparse known hrun
    have hsustains := sustaining_evaluate depth parsed.program scope _ (inRange_of_parse hparse) known
      heap hformed (Nat.le_refl _)
    rw [hrun] at hsustains
    exact hsustains.2.2

/-- In `let f = fn() { f }; f()` the scope that binds `f` is the one that `f` holds on to, and the
scope of the call stands in it. -/
theorem leadsTo_wellFormed_cycle :
    let f (column : Int) : Identifier := ⟨⟨.ident, "f", ⟨1, column⟩⟩, "f"⟩
    let parsed : Parsed := ⟨[
      .binding ⟨.letWord, "let", ⟨1, 1⟩⟩ (f 5) (.function ⟨.function, "fn", ⟨1, 9⟩⟩ []
        ⟨.lbrace, "\x7b", ⟨1, 14⟩⟩ [.expression (f 16).token (.reference (f 16))]),
      .expression (f 21).token (.call ⟨.lparen, "(", ⟨1, 22⟩⟩ (.reference (f 21)) [])], []⟩
    let heap := (evaluate 9 parsed.program 0).heapAfter .initial
    parse "let f = fn() \x7b f \x7d; f()" = .ok parsed ∧ Heap.initial.LeadsTo heap ∧
      heap.Outward 1 (heap.chain 1) ∧ heap.chain 1 = [1, 0] ∧
      ∃ value, heap.binding? 0 "f" = some value ∧ value.Fits heap.scopes.size ∧
        value.describe = "Function()" ∧ heap.lookup 1 "f" = some value := by
  intro f parsed heap
  have hparse : parse "let f = fn() \x7b f \x7d; f()" = .ok parsed := rfl
  have hleads : Heap.initial.LeadsTo heap := .run .start hparse (by decide) 9
  have hformed := leadsTo_wellFormed hleads
  exact ⟨hparse, hleads, (hformed.1 1 (by decide)).1, rfl, _, rfl, hformed.2.1 0 "f" _ rfl, rfl, rfl⟩

end MonkeyLang
