import MonkeyLang.Proofs.Evaluation.Clean
import MonkeyLang.Proofs.Evaluation.Record

/-!
# Where functions come from

Evaluating a node evaluates its parts, and the bodies of functions that are called.  A function is made from
a function literal, and it keeps what the literal says.  So if some property passes from nodes to their parts,
then nothing but nodes with this property is evaluated, as long as only such nodes were given and only such
functions were bound; and every function comes from a literal with the property.

This is about the middle of an evaluation, too, where functions are made that are dropped before its end.  So
it is stated for the record of an evaluation (`recordAll_madeOf`).
-/

set_option autoImplicit false

namespace MonkeyLang

/-! ## Parts -/

/-- The nodes that a node is evaluated by.  Those of a function literal wait for its function to be called. -/
def Node.parts : Node → List Node
  | program statements | block _ statements => statements
  | expression _ inner | result _ inner | binding _ _ inner | unary _ _ inner => [inner]
  | binary _ left _ right => [left, right]
  | ifThen _ condition brace body => [condition, block brace body]
  | ifThenElse _ condition brace body elseBrace elseBody =>
    [condition, block brace body, block elseBrace elseBody]
  | function _ _ brace body => [block brace body]
  | call _ callee arguments => callee :: arguments
  | reference _ | integer .. | boolean .. | foreign .. => []

/-- The property passes from nodes to their parts. -/
def Node.Hereditary (fine : Node → Prop) : Prop :=
  ∀ node, fine node → ∀ part ∈ node.parts, fine part

/-- If the value is a function, or is going to be one, it comes from a function literal with the property. -/
def Value.MadeOf (fine : Node → Prop) : Value → Prop
  | function _ closure => ∃ token,
    fine (.function token closure.parameters closure.brace closure.body)
  | returned value => value.MadeOf fine
  | _ => True

/-- Only nodes with the property are evaluated, and to values that come from such. -/
def Deed.MadeOf (fine : Node → Prop) : Deed → Prop
  | evaluated node value => fine node ∧ value.MadeOf fine
  | _ => True

variable {fine : Node → Prop}

theorem Value.MadeOf.unwrap {value : Value} (h : value.MadeOf fine) : value.unwrap.MadeOf fine := by
  cases value <;> exact h

/-! ## Records -/

/-- At all moments, and in the end, nothing is there but what comes from nodes with the property. -/
structure Record.MadeOf (fine : Node → Prop) (record : Record) : Prop where
  heap : record.heap.Holds (Value.MadeOf fine)
  moments : ∀ moment ∈ record.moments, moment.deed.MadeOf fine

theorem Record.MadeOf.note {before : Record} (h : before.MadeOf fine) (deed : Deed)
    (hdeed : deed.MadeOf fine) :
    Record.MadeOf fine { before with moments := before.moments ++ [⟨deed, before.heap⟩] } := by
  refine ⟨h.heap, fun moment hmoment => ?_⟩
  rcases List.mem_append.1 hmoment with hbefore | hnew
  · exact h.moments moment hbefore
  · cases List.mem_singleton.1 hnew
    exact hdeed

namespace Recording

variable {α β : Type} {good : α → Prop} {good' : β → Prop}

/-- Where nothing comes from elsewhere, nothing does afterwards, and the result has its property. -/
def Derives (fine : Node → Prop) (good : α → Prop) (recording : Recording α) : Prop :=
  ∀ before : Record, before.MadeOf fine →
    match recording before with
    | .ok a after => good a ∧ after.MadeOf fine
    | .error _ after => after.MadeOf fine

/-- The result is a value. -/
abbrev DerivesValue (fine : Node → Prop) : Recording Value → Prop :=
  Derives fine (Value.MadeOf fine)

namespace Derives

variable {recording : Recording α} {next : α → Recording β}

theorem pure {a : α} (h : good a) : Derives fine good (Pure.pure a) :=
  fun _ hbefore => ⟨h, hbefore⟩

theorem throw (cause : Halt) : Derives fine good (throw cause : Recording α) :=
  fun _ hbefore => hbefore

theorem bind (h : Derives fine good recording) (h' : ∀ a, good a → Derives fine good' (next a)) :
    Derives fine good' (recording >>= next) := by
  intro before hbefore
  have hfirst := h before hbefore
  simp only [Bind.bind, EStateM.bind]
  cases hrun : recording before with
  | ok a middle =>
    rw [hrun] at hfirst
    exact h' a hfirst.1 middle hfirst.2
  | error cause middle =>
    rw [hrun] at hfirst
    exact hfirst

theorem note (deed : Deed) (h : deed.MadeOf fine) {next : Unit → Recording β}
    (h' : Derives fine good' (next ())) : Derives fine good' (Recording.note deed >>= next) :=
  fun _ hbefore => h' _ (hbefore.note deed h)

theorem ite {c : Prop} [Decidable c] {other : Recording α} (h : Derives fine good recording)
    (h' : Derives fine good other) : Derives fine good (if c then recording else other) := by
  split <;> assumption

theorem andThen {value : Value} {next : Value → Recording Value} (hvalue : value.MadeOf fine)
    (h : DerivesValue fine (next value)) : DerivesValue fine (Recording.andThen value next) :=
  .ite (.pure hvalue) h

theorem unwrap {recording : Recording Value} (h : DerivesValue fine recording) :
    DerivesValue fine (recording >>= fun value => Pure.pure value.unwrap) :=
  .bind h fun _ hvalue => .pure hvalue.unwrap

theorem integer (value : Int) : DerivesValue fine (Recording.lift (Evaluation.integer value)) :=
  fun _ hbefore => ⟨True.intro, hbefore.heap.stamp, hbefore.moments⟩

theorem function {closure : Closure} (h : ∃ token,
      fine (.function token closure.parameters closure.brace closure.body)) :
    DerivesValue fine (Recording.lift (Evaluation.function closure)) :=
  fun _ hbefore => ⟨h, hbefore.heap.stamp, hbefore.moments⟩

theorem outcome : ∀ outcome : Outcome,
    DerivesValue fine (Recording.lift (Evaluation.outcome outcome))
  | .integer value => integer value
  | .boolean _ => fun _ hbefore => ⟨True.intro, hbefore⟩
  | .error _ => fun _ hbefore => ⟨True.intro, hbefore⟩

theorem reference (scope : ScopeId) (name : String) :
    DerivesValue fine (Recording.lift (Evaluation.reference scope name)) := by
  intro before hbefore
  refine ⟨?_, hbefore⟩
  cases hfound : before.heap.lookup scope name with
  | none => exact True.intro
  | some value => exact hbefore.heap.lookup hfound

theorem bindName (scope : ScopeId) (name : String) {value : Value} (h : value.MadeOf fine) :
    Derives fine (fun _ => True) (Recording.bind scope name value) := by
  intro before hbefore
  have hbound : Record.MadeOf fine { before with heap := before.heap.bind scope name value } :=
    ⟨hbefore.heap.bind scope name h, hbefore.moments⟩
  exact ⟨True.intro, hbound.note (.bound scope name value) True.intro⟩

theorem bindAll (scope : ScopeId) : ∀ {bindings : List (String × Value)},
    (∀ binding ∈ bindings, binding.2.MadeOf fine) →
    Derives fine (fun _ => True) (Recording.bindAll scope bindings)
  | [], _ => .pure True.intro
  | (name, _) :: _, h => .bind (bindName scope name (h _ List.mem_cons_self)) fun _ _ =>
    bindAll scope fun binding hbinding => h binding (List.mem_cons_of_mem _ hbinding)

theorem enclose (outer : Option ScopeId) :
    Derives fine (fun _ => True) (Recording.lift (Evaluation.enclose outer)) :=
  fun _ hbefore => ⟨True.intro, hbefore.heap.enclose outer, hbefore.moments⟩

end Derives

end Recording

/-! ## Nodes -/

open Recording

/-- Nodes with the property are evaluated to what comes from such. -/
def Recorder.Derives (fine : Node → Prop) (recorder : Recorder) : Prop :=
  ∀ (node : Node) (scope : ScopeId), fine node → DerivesValue fine (recorder node scope)

section Nodes

variable {recorder : Recorder} (h : recorder.Derives fine)
include h

theorem derives_statements (scope : ScopeId) : ∀ {before : Value} {statements : List Node},
    before.MadeOf fine → (∀ statement ∈ statements, fine statement) →
    DerivesValue fine (recorder.statements scope before statements)
  | _, [], hbefore, _ => .pure hbefore
  | _, first :: rest, _, hall => by
    obtain ⟨hfirst, hrest⟩ := List.forall_mem_cons.1 hall
    exact .bind (h first scope hfirst) fun value hvalue => .andThen hvalue <|
      derives_statements scope hvalue hrest

theorem derives_arguments (scope : ScopeId) : ∀ {arguments : List Node},
    (∀ argument ∈ arguments, fine argument) →
    Recording.Derives fine (fun
      | .error signal => signal.MadeOf fine
      | .ok values => ∀ value ∈ values, value.MadeOf fine) (recorder.arguments scope arguments)
  | [], _ => .pure (List.forall_mem_nil _)
  | first :: rest, hall => by
    obtain ⟨hfirst, hrest⟩ := List.forall_mem_cons.1 hall
    refine .bind (h first scope hfirst) fun value hvalue => .ite (.pure hvalue) <|
      .bind (derives_arguments scope hrest) ?_
    rintro (signal | values) hothers
    · exact .pure hothers
    · exact .pure (List.forall_mem_cons.2 ⟨hvalue, hothers⟩)

variable (hparts : Node.Hereditary fine)
include hparts

theorem derives_enter {callee : Value} {values : List Value} (hcallee : callee.MadeOf fine)
    (hvalues : ∀ value ∈ values, value.MadeOf fine) :
    DerivesValue fine (recorder.enter callee values) := by
  cases callee with
  | function stamp closure =>
    obtain ⟨token, hliteral⟩ := hcallee
    have hbody : fine (.block closure.brace closure.body) := hparts _ hliteral _ List.mem_cons_self
    refine .ite (.pure True.intro) <| .bind (.enclose _) fun scope _ =>
      .bind (.bindAll scope fun binding hbinding => ?_) fun _ _ => .unwrap (h _ scope hbody)
    exact hvalues _ (List.of_mem_zip hbinding).2
  | _ => exact .pure True.intro

theorem derives_apply {callee : Value} {values : List Value} (hcallee : callee.MadeOf fine)
    (hvalues : ∀ value ∈ values, value.MadeOf fine) :
    DerivesValue fine (recorder.apply callee values) :=
  .note (.called callee values) True.intro <|
    .bind (derives_enter h hparts hcallee hvalues) fun value hvalue =>
    .note (.answered callee values value) True.intro (.pure hvalue)

theorem derives_recordParts (node : Node) (scope : ScopeId) (hnode : fine node) :
    DerivesValue fine (recordParts recorder node scope) := by
  have hpart := hparts node hnode
  cases node with
  | program statements => exact .unwrap (derives_statements h scope True.intro hpart)
  | block _ statements => exact derives_statements h scope True.intro hpart
  | expression _ inner => exact h inner scope (hpart inner (by simp [Node.parts]))
  | result _ inner =>
    exact .bind (h inner scope (hpart inner (by simp [Node.parts]))) fun value hvalue =>
      .andThen hvalue (.note (.sent value) True.intro (.pure hvalue))
  | binding _ identifier inner =>
    exact .bind (h inner scope (hpart inner (by simp [Node.parts]))) fun value hvalue =>
      .andThen hvalue <| .bind (.bindName scope identifier.name hvalue) fun _ _ => .pure True.intro
  | integer _ value => exact .integer value
  | boolean _ value => exact .pure True.intro
  | reference identifier => exact .reference scope identifier.name
  | unary _ operator operand =>
    exact .bind (h operand scope (hpart operand (by simp [Node.parts]))) fun value hvalue =>
      .andThen hvalue (.note (.unary operator value) True.intro (.outcome _))
  | binary _ left operator right =>
    exact .bind (h left scope (hpart left (by simp [Node.parts]))) fun value hvalue =>
      .andThen hvalue <| .bind (h right scope (hpart right (by simp [Node.parts]))) fun other hother =>
      .andThen hother (.note (.binary operator value other) True.intro (.outcome _))
  | ifThen _ condition brace body =>
    exact .bind (h condition scope (hpart condition (by simp [Node.parts]))) fun value hvalue =>
      .andThen hvalue <| .note (.tested value) True.intro <|
      .ite (h _ scope (hpart (.block brace body) (by simp [Node.parts]))) (.pure True.intro)
  | ifThenElse _ condition brace body elseBrace elseBody =>
    exact .bind (h condition scope (hpart condition (by simp [Node.parts]))) fun value hvalue =>
      .andThen hvalue <| .note (.tested value) True.intro <|
      .ite (h _ scope (hpart (.block brace body) (by simp [Node.parts])))
        (h _ scope (hpart (.block elseBrace elseBody) (by simp [Node.parts])))
  | function token parameters brace body => exact .function ⟨token, hnode⟩
  | call _ callee arguments =>
    obtain ⟨hcallee, harguments⟩ := List.forall_mem_cons.1 hpart
    refine .bind (h callee scope hcallee) fun function hfunction => .andThen hfunction <|
      .bind (derives_arguments h scope harguments) ?_
    rintro (signal | values) hvalues
    · exact .pure hvalues
    · exact derives_apply h hparts hfunction hvalues
  | foreign name _ => exact .throw _

end Nodes

section

variable (hparts : Node.Hereditary fine)
include hparts

/-- Evaluation of whatever depth derives its values from nodes with the property. -/
theorem derives_record : ∀ depth, (record depth).Derives fine
  | 0, _, _, _ => .throw _
  | depth + 1, node, scope, hnode =>
    .bind (derives_recordParts (derives_record depth) hparts node scope hnode) fun value hvalue =>
      .note (.evaluated node value) ⟨hnode, hvalue⟩ (.pure hvalue)

theorem recordAfter_madeOf (depth : Nat) {node : Node} (hnode : fine node) (scope : ScopeId)
    {before : Record} (hbefore : before.MadeOf fine) :
    ((record depth node scope).recordAfter before).MadeOf fine := by
  have hrun := derives_record hparts depth node scope hnode before hbefore
  rw [recordAfter]
  cases hresult : record depth node scope before with
  | ok value after =>
    rw [hresult] at hrun
    exact hrun.2
  | error cause after =>
    rw [hresult] at hrun
    exact hrun

/-- **Functions come from the literals that are evaluated.**  Let a property pass from nodes to their parts,
and let all nodes that are evaluated one after the other have it.  Then all nodes that are evaluated on the
way have it, too, and whatever function they come to, or is bound to a name, comes from a literal with it. -/
theorem recordAll_madeOf : ∀ {tasks : List Task} {before : Record},
    (∀ task ∈ tasks, fine task.node) → before.MadeOf fine → (recordAll tasks before).MadeOf fine
  | [], _, _, hbefore => hbefore
  | task :: rest, before, hall, hbefore => by
    obtain ⟨hfirst, hrest⟩ := List.forall_mem_cons.1 hall
    rw [recordAll]
    exact recordAll_madeOf hrest (recordAfter_madeOf hparts task.depth hfirst task.scope hbefore)

end

end MonkeyLang
