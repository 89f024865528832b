import MonkeyLang.Proofs.Evaluation.Confinement

/-!
# Names that are not mentioned are not seen

A name that occurs neither in a node nor in any function that a name is bound to makes no difference to
the evaluation of the node: it may be bound anywhere, to anything, or not at all.

Instead of two runs, from heaps with and without a binding, one run is compared with the run in which
the binding was taken away first.  Taking a binding of the name away (`Heap.without`) commutes with
everything that evaluation does to a heap, as long as only other names are looked up and bound.  For
this to go on, functions that mention the name must not appear on the way, so a heap has to be `Silent`
about the name, and no value that is come to mentions it (`Ignores`).

* `Node.names` and `Value.names` list all that is mentioned.
* `evaluate_unmentioned` compares two runs, one of which binds the name differently.
-/

set_option autoImplicit false

namespace MonkeyLang

/-! ## The names that occur -/

namespace Node

mutual

/-- The names that occur in a node: those it refers to, those of its `let` statements, and those of
parameters. -/
def names : Node → List String
  | program statements | block _ statements => namesAll statements
  | reference identifier => [identifier.name]
  | unary _ _ inner | result _ inner | expression _ inner => inner.names
  | binary _ left _ right => left.names ++ right.names
  | ifThen _ condition _ body => condition.names ++ namesAll body
  | ifThenElse _ condition _ body _ elseBody =>
    condition.names ++ (namesAll body ++ namesAll elseBody)
  | function _ parameters _ body => parameters.map (·.name) ++ namesAll body
  | call _ callee arguments => callee.names ++ namesAll arguments
  | binding _ identifier value => identifier.name :: value.names
  | integer .. | boolean .. | foreign .. => []

/-- The names that occur in some nodes. -/
def namesAll : List Node → List String
  | [] => []
  | first :: rest => first.names ++ namesAll rest

end

end Node

/-- The names that occur in a function, be it still on its way to the end of a call. -/
def Value.names : Value → List String
  | function _ closure => closure.parameters.map (·.name) ++ Node.namesAll closure.body
  | returned value => value.names
  | _ => []

theorem Value.names_unwrap (value : Value) : value.unwrap.names = value.names := by
  cases value <;> rfl

/-! ## Taking a binding away -/

namespace Scope

variable {name other : String}

theorem filter_insert_of_ne (h : other ≠ name) (value : Value) :
    ∀ bindings : List (String × Value),
      (insert other value bindings).filter (·.1 != name) =
        insert other value (bindings.filter (·.1 != name))
  | [] => by simp [insert, h]
  | binding :: rest => by
    have ih := filter_insert_of_ne h value rest
    by_cases hother : binding.1 = other
    · simp [insert, hother, h]
    · by_cases hname : binding.1 = name <;> simp_all [insert]

theorem filter_insert_self (value : Value) : ∀ bindings : List (String × Value),
    (insert name value bindings).filter (·.1 != name) = bindings.filter (·.1 != name)
  | [] => by simp [insert]
  | binding :: rest => by
    have ih := filter_insert_self value rest
    by_cases hname : binding.1 = name <;> simp_all [insert]

theorem find?_filter_of_ne (h : other ≠ name) : ∀ bindings : List (String × Value),
    find? other (bindings.filter (·.1 != name)) = find? other bindings
  | [] => rfl
  | binding :: rest => by
    have ih := find?_filter_of_ne h rest
    by_cases hname : binding.1 = name
    · have hother : binding.1 ≠ other := fun hsame => h (hsame.symm.trans hname)
      simp_all [find?]
    · simp_all [find?]

end Scope

namespace Heap

variable {heap : Heap} {place scope : ScopeId} {name other : String}

/-- The heap without the binding of a name in one scope. -/
def without (heap : Heap) (place : ScopeId) (name : String) : Heap :=
  { heap with
    scopes := heap.scopes.modify place fun scope =>
      { scope with bindings := scope.bindings.filter (·.1 != name) } }

theorem scopes_without (id : ScopeId) :
    (heap.without place name).scopes[id]? =
      if place = id then heap.scopes[id]?.map fun scope =>
        { scope with bindings := scope.bindings.filter (·.1 != name) }
      else heap.scopes[id]? := by
  rw [without, Array.getElem?_modify]

theorem binding?_without (h : other ≠ name) (id : ScopeId) :
    (heap.without place name).binding? id other = heap.binding? id other := by
  rw [binding?, binding?, scopes_without]
  split
  · cases heap.scopes[id]? with
    | none => rfl
    | some scope => exact Scope.find?_filter_of_ne h scope.bindings
  · rfl

theorem chainUpTo_without : ∀ (length : Nat) (id : ScopeId),
    (heap.without place name).chainUpTo length id = heap.chainUpTo length id
  | 0, _ => rfl
  | length + 1, id => by
    rw [chainUpTo, chainUpTo, scopes_without]
    cases heap.scopes[id]? with
    | none => simp
    | some scope =>
      have ih := chainUpTo_without length
      by_cases hplace : place = id
      · simp only [if_pos hplace, Option.map_some, ih]
      · simp only [if_neg hplace, ih]

theorem lookup_without (h : other ≠ name) (id : ScopeId) :
    (heap.without place name).lookup id other = heap.lookup id other := by
  simp only [lookup, chain, chainUpTo_without, binding?_without h]

theorem bind_without (h : other ≠ name) (scope : ScopeId) (value : Value) :
    (heap.without place name).bind scope other value =
      (heap.bind scope other value).without place name := by
  simp only [bind, without, mk.injEq, and_true]
  refine Array.ext_getElem? fun id => ?_
  simp only [Array.getElem?_modify]
  split <;> split <;> simp [Function.comp_def, Scope.filter_insert_of_ne h]

theorem without_bind_self (value : Value) :
    (heap.bind place name value).without place name = heap.without place name := by
  simp only [bind, without, mk.injEq, and_true]
  refine Array.ext_getElem? fun id => ?_
  simp only [Array.getElem?_modify]
  split <;> simp [Function.comp_def, Scope.filter_insert_self]

theorem enclose_without (known : place < heap.scopes.size) (outer : Option ScopeId) :
    (heap.without place name).enclose outer =
      ((heap.enclose outer).1, (heap.enclose outer).2.without place name) := by
  simp only [enclose, without, Array.size_modify, Prod.mk.injEq, mk.injEq, true_and, and_true]
  refine Array.ext_getElem? fun id => ?_
  simp only [Array.getElem?_push, Array.getElem?_modify, Array.size_modify]
  by_cases hnew : id = heap.scopes.size
  · simp [hnew, Nat.ne_of_lt known]
  · simp [hnew]

theorem bind_of_not_lt (h : ¬scope < heap.scopes.size) (name : String) (value : Value) :
    heap.bind scope name value = heap := by
  have hscopes : ∀ f, heap.scopes.modify scope f = heap.scopes := fun f => by
    refine Array.ext_getElem? fun id => ?_
    rw [Array.getElem?_modify]
    split
    · rename_i hsame
      rw [← hsame, Array.getElem?_eq_none (Nat.le_of_not_lt h), Option.map_none]
    · rfl
  rw [bind, hscopes]

/-! ## Heaps that are silent about a name -/

/-- The place is there, and nothing that is bound to another name mentions the name. -/
structure Silent (place : ScopeId) (name : String) (heap : Heap) : Prop where
  known : place < heap.scopes.size
  unmentioned : ∀ id other bound, other ≠ name → heap.binding? id other = some bound →
    name ∉ bound.names

/-- The heap is still silent about the name, and the name is bound at the place as it was before. -/
structure Later (place : ScopeId) (name : String) (before after : Heap) : Prop where
  silent : after.Silent place name
  kept : after.binding? place name = before.binding? place name

theorem Silent.refl (h : heap.Silent place name) : Later place name heap heap :=
  ⟨h, rfl⟩

theorem Silent.lookup (h : heap.Silent place name) (hother : other ≠ name) {value : Value}
    (hfound : heap.lookup scope other = some value) : name ∉ value.names := by
  obtain ⟨id, -, hid⟩ := List.exists_of_findSome?_eq_some hfound
  exact h.unmentioned id other value hother hid

theorem Silent.bind (h : heap.Silent place name) (scope : ScopeId) {value : Value}
    (hvalue : other ≠ name → name ∉ value.names) : (heap.bind scope other value).Silent place name := by
  refine ⟨by simpa [Heap.bind] using h.known, fun id another bound hne hbound => ?_⟩
  by_cases known : scope < heap.scopes.size
  · rw [binding?_bind heap known] at hbound
    split at hbound
    · rename_i hsame
      rw [← Option.some.inj hbound]
      exact hvalue (hsame.2 ▸ hne)
    · exact h.unmentioned id another bound hne hbound
  · rw [bind_of_not_lt known] at hbound
    exact h.unmentioned id another bound hne hbound

theorem Silent.later_bind (h : heap.Silent place name) (hother : other ≠ name) (scope : ScopeId)
    {value : Value} (hvalue : name ∉ value.names) :
    Later place name heap (heap.bind scope other value) := by
  refine ⟨h.bind scope fun _ => hvalue, ?_⟩
  by_cases known : scope < heap.scopes.size
  · rw [binding?_bind heap known, if_neg fun hsame => hother hsame.2.symm]
  · rw [bind_of_not_lt known]

theorem Silent.later_enclose (h : heap.Silent place name) (outer : Option ScopeId) :
    Later place name heap (heap.enclose outer).2 where
  silent := by
    refine ⟨by simpa [enclose] using Nat.lt_succ_of_lt h.known, fun id other bound hne hbound => ?_⟩
    rw [binding?, enclose, Array.getElem?_push] at hbound
    split at hbound
    · cases hbound
    · exact h.unmentioned id other bound hne hbound
  kept := by
    rw [binding?, binding?, enclose, Array.getElem?_push, if_neg (Nat.ne_of_lt h.known)]

theorem Silent.later_stamp (h : heap.Silent place name) :
    Later place name heap { heap with stamps := heap.stamps + 1 } :=
  ⟨⟨h.known, h.unmentioned⟩, rfl⟩

end Heap

/-! ## Evaluations -/

/-- Two results are the same, apart from the heaps.  These are related, and the property holds of what
was come to. -/
inductive Alike {α : Type} (good : α → Prop) (related : Heap → Heap → Prop) :
    EStateM.Result Halt Heap α → EStateM.Result Halt Heap α → Prop
  | ok {a : α} {first second : Heap} (hgood : good a) (hrelated : related first second) :
      Alike good related (.ok a first) (.ok a second)
  | error {cause : Halt} {first second : Heap} (hrelated : related first second) :
      Alike good related (.error cause first) (.error cause second)

/-- What two results are both like, they are like each other. -/
theorem Alike.join {α : Type} {good : α → Prop} {related related' joined : Heap → Heap → Prop}
    {first second third : EStateM.Result Halt Heap α} (h : Alike good related first third)
    (h' : Alike good related' second third)
    (hjoined : ∀ heap heap' common, related heap common → related' heap' common →
      joined heap heap') :
    Alike good joined first second := by
  cases h with
  | ok hgood hrelated =>
    cases h' with
    | ok _ hrelated' => exact .ok hgood (hjoined _ _ _ hrelated hrelated')
  | error hrelated =>
    cases h' with
    | error hrelated' => exact .error (hjoined _ _ _ hrelated hrelated')

namespace Evaluation

variable {α β : Type} {place : ScopeId} {name : String} {good : α → Prop} {good' : β → Prop}

/-- From every heap that is silent about the name, the evaluation does the same as without the binding
of the name at the place, and does not touch this binding. -/
def Ignores (place : ScopeId) (name : String) (good : α → Prop) (evaluation : Evaluation α) : Prop :=
  ∀ heap : Heap, heap.Silent place name →
    Alike good (fun after after' => after' = after.without place name ∧
      Heap.Later place name heap after) (evaluation heap) (evaluation (heap.without place name))

/-- A value that the name does not occur in. -/
abbrev IgnoresToValue (place : ScopeId) (name : String) : Evaluation Value → Prop :=
  Ignores place name fun value => name ∉ value.names

namespace Ignores

variable {evaluation : Evaluation α} {next : α → Evaluation β}

theorem pure {a : α} (h : good a) : Ignores place name good (Pure.pure a) :=
  fun _ hsilent => .ok h ⟨rfl, hsilent.refl⟩

theorem throw (cause : Halt) : Ignores place name good (throw cause : Evaluation α) :=
  fun _ hsilent => .error ⟨rfl, hsilent.refl⟩

theorem bind (h : Ignores place name good evaluation)
    (h' : ∀ a, good a → Ignores place name good' (next a)) :
    Ignores place name good' (evaluation >>= next) := by
  intro heap hsilent
  have hfirst := h heap hsilent
  simp only [Bind.bind, EStateM.bind]
  revert hfirst
  generalize evaluation heap = result
  generalize evaluation (heap.without place name) = result'
  intro hfirst
  cases hfirst with
  | @ok a middle _ hgood hrelated =>
    obtain ⟨rfl, hmiddle⟩ := hrelated
    have hsecond := h' a hgood middle hmiddle.silent
    simp only
    revert hsecond
    generalize next a middle = result
    generalize next a (middle.without place name) = result'
    intro hsecond
    cases hsecond with
    | ok hgood' hrelated' =>
      exact .ok hgood' ⟨hrelated'.1, hrelated'.2.silent, hrelated'.2.kept.trans hmiddle.kept⟩
    | error hrelated' =>
      exact .error ⟨hrelated'.1, hrelated'.2.silent, hrelated'.2.kept.trans hmiddle.kept⟩
  | error hrelated => exact .error hrelated

theorem integer (value : Int) : IgnoresToValue place name (Evaluation.integer value) :=
  fun _ hsilent => .ok (by simp [Value.names]) ⟨rfl, hsilent.later_stamp⟩

theorem function (closure : Closure)
    (h : name ∉ closure.parameters.map (·.name) ++ Node.namesAll closure.body) :
    IgnoresToValue place name (Evaluation.function closure) :=
  fun _ hsilent => .ok h ⟨rfl, hsilent.later_stamp⟩

theorem outcome : ∀ outcome : Outcome, IgnoresToValue place name (Evaluation.outcome outcome)
  | .integer value => integer value
  | .boolean _ => pure (by simp [Value.names])
  | .error _ => pure (by simp [Value.names])

theorem reference (scope : ScopeId) {other : String} (h : other ≠ name) :
    IgnoresToValue place name (Evaluation.reference scope other) := by
  intro heap hsilent
  show Alike _ _ _ (.ok (((heap.without place name).lookup scope other).getD _) _)
  rw [Heap.lookup_without h]
  refine .ok ?_ ⟨rfl, hsilent.refl⟩
  cases hfound : heap.lookup scope other with
  | none => simp [Value.names]
  | some value => exact hsilent.lookup h hfound

theorem bindName (scope : ScopeId) {other : String} (h : other ≠ name) {value : Value}
    (hvalue : name ∉ value.names) :
    Ignores place name (fun _ => True) (Evaluation.bind scope other value) :=
  fun _ hsilent => .ok True.intro ⟨Heap.bind_without h scope value, hsilent.later_bind h scope hvalue⟩

theorem bindAll (scope : ScopeId) : ∀ {bindings : List (String × Value)},
    (∀ binding ∈ bindings, binding.1 ≠ name ∧ name ∉ binding.2.names) →
      Ignores place name (fun _ => True) (Evaluation.bindAll scope bindings)
  | [], _ => pure True.intro
  | (_, _) :: _, h =>
    bind (bindName scope (h _ List.mem_cons_self).1 (h _ List.mem_cons_self).2) fun _ _ =>
      bindAll scope fun binding hmem => h binding (List.mem_cons_of_mem _ hmem)

theorem enclose (outer : Option ScopeId) :
    Ignores place name (fun _ => True) (Evaluation.enclose outer) := by
  intro heap hsilent
  show Alike _ _ (.ok _ _) (.ok ((heap.without place name).enclose outer).1
    ((heap.without place name).enclose outer).2)
  rw [Heap.enclose_without hsilent.known]
  exact .ok True.intro ⟨rfl, hsilent.later_enclose outer⟩

theorem andThen {value : Value} {next : Value → Evaluation Value} (hvalue : name ∉ value.names)
    (h : IgnoresToValue place name (next value)) :
    IgnoresToValue place name (Evaluation.andThen value next) := by
  rw [Evaluation.andThen]
  split
  · exact pure hvalue
  · exact h

theorem unwrap {evaluation : Evaluation Value} (h : IgnoresToValue place name evaluation) :
    IgnoresToValue place name (evaluation >>= fun value => Pure.pure value.unwrap) :=
  bind h fun value hvalue => pure (by rwa [Value.names_unwrap])

end Ignores

end Evaluation

/-! ## Nodes -/

section Nodes

open Evaluation

variable {evaluator : Evaluator} {place : ScopeId} {name : String}

/-- The evaluator ignores the binding in all nodes in which the name does not occur. -/
def Evaluator.Ignoring (evaluator : Evaluator) (place : ScopeId) (name : String) : Prop :=
  ∀ node scope, name ∉ node.names → IgnoresToValue place name (evaluator node scope)

variable (h : evaluator.Ignoring place name)
include h

theorem ignores_statements (scope : ScopeId) : ∀ {before : Value} {statements : List Node},
    name ∉ before.names → name ∉ Node.namesAll statements →
      IgnoresToValue place name (evaluator.statements scope before statements)
  | _, [], hbefore, _ => .pure hbefore
  | _, first :: rest, _, hname => by
    rw [Node.namesAll, List.mem_append, not_or] at hname
    exact .bind (h first scope hname.1) fun value hvalue => .andThen hvalue <|
      ignores_statements scope hvalue hname.2

theorem ignores_arguments (scope : ScopeId) : ∀ {arguments : List Node},
    name ∉ Node.namesAll arguments →
      Ignores place name (fun
        | .error signal => name ∉ signal.names
        | .ok values => ∀ value ∈ values, name ∉ value.names) (evaluator.arguments scope arguments)
  | [], _ => .pure (by simp)
  | first :: rest, hname => by
    rw [Node.namesAll, List.mem_append, not_or] at hname
    refine .bind (h first scope hname.1) fun value hvalue => ?_
    split
    · exact .pure hvalue
    · refine .bind (ignores_arguments scope hname.2) ?_
      rintro (signal | values) hrest
      · exact .pure hrest
      · exact .pure fun other hother => by
          rcases List.mem_cons.1 hother with rfl | hother
          · exact hvalue
          · exact hrest other hother

/-- The parameters of a function and the names in its body are others, whatever scope it was made in. -/
theorem ignores_apply {callee : Value} {values : List Value} (hcallee : name ∉ callee.names)
    (hvalues : ∀ value ∈ values, name ∉ value.names) :
    IgnoresToValue place name (evaluator.apply callee values) := by
  cases callee with
  | function stamp closure =>
    rw [Value.names, List.mem_append, not_or] at hcallee
    rw [Evaluator.apply]
    split
    · exact .pure (by simp [Value.names])
    · refine .bind (.enclose _) fun scope _ => .bind (.bindAll scope fun binding hmem => ?_)
        fun _ _ => .unwrap (h _ scope hcallee.2)
      have hmem := List.of_mem_zip hmem
      exact ⟨fun hsame => hcallee.1 (hsame ▸ hmem.1), hvalues _ hmem.2⟩
  | _ => exact .pure (by simp [Value.names])

theorem ignoring_evaluateWith : Evaluator.Ignoring (evaluateWith evaluator) place name := by
  intro node scope hname
  cases node with
  | program statements => exact .unwrap (ignores_statements h scope (by simp [Value.names]) hname)
  | block _ statements => exact ignores_statements h scope (by simp [Value.names]) hname
  | expression _ inner => exact h inner scope hname
  | result _ inner =>
    exact .bind (h inner scope hname) fun value hvalue => .andThen hvalue (.pure hvalue)
  | binding _ identifier inner =>
    rw [Node.names, List.mem_cons, not_or] at hname
    refine .bind (h inner scope hname.2) fun value hvalue => .andThen hvalue ?_
    exact .bind (.bindName scope (Ne.symm hname.1) hvalue) fun _ _ => .pure (by simp [Value.names])
  | integer _ value => exact .integer value
  | boolean _ value => exact .pure (by simp [Value.names])
  | reference identifier =>
    exact .reference scope fun hsame => hname (by simp [Node.names, hsame])
  | unary _ operator operand =>
    exact .bind (h operand scope hname) fun value hvalue => .andThen hvalue (.outcome _)
  | binary _ left operator right =>
    rw [Node.names, List.mem_append, not_or] at hname
    refine .bind (h left scope hname.1) fun value hvalue => .andThen hvalue ?_
    exact .bind (h right scope hname.2) fun other hother => .andThen hother (.outcome _)
  | ifThen _ condition brace body =>
    rw [Node.names, List.mem_append, not_or] at hname
    refine .bind (h condition scope hname.1) fun value hvalue => .andThen hvalue ?_
    split
    · exact h (.block brace body) scope hname.2
    · exact .pure (by simp [Value.names])
  | ifThenElse _ condition brace body elseBrace elseBody =>
    rw [Node.names, List.mem_append, List.mem_append, not_or, not_or] at hname
    refine .bind (h condition scope hname.1) fun value hvalue => .andThen hvalue ?_
    split
    · exact h (.block brace body) scope hname.2.1
    · exact h (.block elseBrace elseBody) scope hname.2.2
  | function _ parameters brace body => exact .function _ hname
  | call _ callee arguments =>
    rw [Node.names, List.mem_append, not_or] at hname
    refine .bind (h callee scope hname.1) fun function hfunction => .andThen hfunction ?_
    refine .bind (ignores_arguments h scope hname.2) ?_
    rintro (signal | values) hvalues
    · exact .pure hvalues
    · exact ignores_apply h hfunction hvalues
  | foreign _ _ => exact .throw _

end Nodes

theorem ignoring_evaluate (place : ScopeId) (name : String) :
    ∀ depth, (evaluate depth).Ignoring place name
  | 0, _, _, _ => .throw _
  | depth + 1, node, scope, hname =>
    ignoring_evaluateWith (ignoring_evaluate place name depth) node scope hname

/-- Two heaps are equal apart from a binding, which is one thing in the first and another in the
second. -/
structure Heap.EqualBut (place : ScopeId) (name : String) (bound bound' : Option Value)
    (first second : Heap) : Prop where
  rest : first.without place name = second.without place name
  first : first.binding? place name = bound
  second : second.binding? place name = bound'

/-- **A name that is not mentioned does not interfere.**  If the name occurs neither in the node nor in
a function that another name is bound to, then evaluation ends the same way with and without the name
bound to a value, and with the same heap but for this binding. -/
theorem evaluate_unmentioned (depth : Nat) {node : Node} (scope : ScopeId) {heap : Heap}
    {place : ScopeId} {name : String} (hnode : name ∉ node.names) (hheap : heap.Silent place name)
    (value : Value) :
    Alike (fun value => name ∉ value.names)
      (Heap.EqualBut place name (heap.binding? place name) (some value))
      (evaluate depth node scope heap) (evaluate depth node scope (heap.bind place name value)) := by
  have ignores := ignoring_evaluate place name depth node scope hnode
  have hfirst := ignores heap hheap
  have hsecond := ignores (heap.bind place name value) (hheap.bind place fun hne => absurd rfl hne)
  rw [Heap.without_bind_self] at hsecond
  refine hfirst.join hsecond fun first second common hcommon hcommon' => ?_
  refine ⟨hcommon.1.symm.trans hcommon'.1, hcommon.2.kept, hcommon'.2.kept.trans ?_⟩
  rw [Heap.binding?_bind heap hheap.known, if_pos ⟨rfl, rfl⟩]

/-- With `f` bound to `fn(y) { y + z }`, neither `f` nor `let w = f(1);` mentions `x`, so that `w` comes
to `6` with and without `x`. -/
theorem evaluate_unmentioned_call :
    let word (kind : TokenKind) (literal : String) : Token := ⟨kind, literal, {}⟩
    let identifier (name : String) : Identifier := ⟨word .ident name, name⟩
    let closure : Closure := ⟨[identifier "y"], word .lbrace "\x7b", [.expression (word .ident "y") <|
      .binary (word .plus "+") (.reference (identifier "y")) "+" (.reference (identifier "z"))], 0⟩
    let heap : Heap := ⟨#[⟨[("f", .function 0 closure), ("z", .integer 1 5)], none⟩], 2⟩
    let node : Node := .binding (word .letWord "let") (identifier "w") <|
      .call (word .lparen "(") (.reference (identifier "f")) [.integer (word .int "1") 1]
    "x" ∉ node.names ∧ heap.Silent 0 "x" ∧
      Alike (fun value => "x" ∉ value.names)
        (Heap.EqualBut 0 "x" (heap.binding? 0 "x") (some (.boolean true)))
        (evaluate 9 node 0 heap) (evaluate 9 node 0 (heap.bind 0 "x" (.boolean true))) ∧
      heap.binding? 0 "x" = none ∧
      ((evaluate 9 node 0).heapAfter heap).binding? 0 "w" = some (.integer 3 6) := by
  intro word identifier closure heap node
  have hnode : "x" ∉ node.names := by decide
  have hheap : heap.Silent 0 "x" := by
    refine ⟨by decide, ?_⟩
    rintro (_ | id) other bound - hbound
    · have hfound : Scope.find? other [("f", .function 0 closure), ("z", .integer 1 5)] =
          some bound := hbound
      simp only [Scope.find?] at hfound
      split at hfound
      · cases hfound
        decide
      · split at hfound
        · cases hfound
          decide
        · cases hfound
    · cases hbound
  exact ⟨hnode, hheap, evaluate_unmentioned 9 0 hnode hheap _, rfl, rfl⟩

end MonkeyLang
