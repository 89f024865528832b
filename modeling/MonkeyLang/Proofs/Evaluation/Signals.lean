import MonkeyLang.Proofs.Evaluation.Clean
import MonkeyLang.Proofs.Evaluation.Record

/-!
# Signals are never taken for data

The record of an evaluation shows what is done with signals, which is nothing
(`signals_are_no_data`).  No operator is applied to one, no condition is one, none is called or passed
to a function, none is bound to a name, and none is sent on its way to the end of a call.  So a
`returned` value holds data, calls and programs come to no `returned` value, and failures never speak
of signals.

All of this holds together or not at all.  A call unwraps what its body comes to once, and this is
enough because only data was sent; only data was sent because names are bound to data; and they are
because calls unwrap what their bodies come to.  `Moment.Proper` is the invariant of every moment.
-/

set_option autoImplicit false

namespace MonkeyLang

/-! ## Proper values -/

/-- The kinds of value that the wording of a failure names. -/
def Failure.kinds : Failure → List ValueKind
  | mismatch left _ right | noBinary left _ right => [left, right]
  | noUnary _ kind | notFunction kind => [kind]
  | divisionByZero | unbound _ | arity .. | remark _ => []

/-- A failure that does not speak of signals. -/
def Failure.Proper (cause : Failure) : Prop :=
  .returned ∉ cause.kinds ∧ .error ∉ cause.kinds

namespace Value

variable {value : Value}

/-- What evaluation may come to: data, data that is returned, or a failure that speaks of data. -/
def Proper : Value → Prop
  | returned value => value.Plain
  | error cause => cause.Proper
  | _ => True

theorem Plain.proper (h : value.Plain) : value.Proper := by
  cases value with
  | returned _ | error _ => cases h
  | _ => exact True.intro

theorem Plain.kind_ne (h : value.Plain) : value.kind ≠ .returned ∧ value.kind ≠ .error := by
  cases value with
  | returned _ | error _ => cases h
  | _ => exact ⟨by rintro ⟨⟩, by rintro ⟨⟩⟩

/-- What is unwrapped is on its way no longer. -/
theorem Proper.unwrap (h : value.Proper) : value.unwrap.Proper ∧ value.unwrap.kind ≠ .returned := by
  cases value with
  | returned value =>
    have hplain : value.Plain := h
    exact ⟨hplain.proper, hplain.kind_ne.1⟩
  | _ => exact ⟨h, by rintro ⟨⟩⟩

end Value

/-! ## Operators on data -/

/-- If an operator fails, the failure does not speak of signals. -/
def Outcome.Proper : Outcome → Prop
  | error cause => cause.Proper
  | _ => True

namespace Outcome

variable {left right : Value}

theorem proper_unary (operator : String) (h : left.Plain) : (unary operator left).Proper := by
  have hkind := h.kind_ne
  unfold unary
  split
  · exact True.intro
  · exact True.intro
  · simp [Proper, Failure.Proper, Failure.kinds, Ne.symm hkind.1, Ne.symm hkind.2]

theorem proper_ofIntegers (operator : String) (left right : Int) :
    (ofIntegers operator left right).Proper := by
  unfold ofIntegers
  split
  case h_4 =>
    split
    · simp [Proper, Failure.Proper, Failure.kinds]
    · exact True.intro
  case h_11 => simp [Proper, Failure.Proper, Failure.kinds]
  all_goals exact True.intro

theorem proper_ofBooleans (operator : String) (left right : Bool) :
    (ofBooleans operator left right).Proper := by
  unfold ofBooleans
  split
  case h_5 => simp [Proper, Failure.Proper, Failure.kinds]
  all_goals exact True.intro

theorem proper_binary (operator : String) (hleft : left.Plain) (hright : right.Plain) :
    (binary operator left right).Proper := by
  have hkind := hleft.kind_ne
  have hkind' := hright.kind_ne
  have hspeaks : ∀ cause : Failure, cause.kinds = [left.kind, right.kind] → cause.Proper := by
    intro cause hkinds
    rw [Failure.Proper, hkinds]
    simp [Ne.symm hkind.1, Ne.symm hkind.2, Ne.symm hkind'.1, Ne.symm hkind'.2]
  unfold binary
  split
  · exact hspeaks _ rfl
  · split
    · exact proper_ofIntegers operator _ _
    · exact proper_ofBooleans operator _ _
    · unfold ofOthers
      split
      · exact True.intro
      · exact True.intro
      · exact hspeaks _ rfl

end Outcome

/-! ## Proper records -/

/-- What may be done: anything with data, and nothing with signals but to let them pass.  Calls and
programs come to no value that is still on its way. -/
def Deed.Proper : Deed → Prop
  | evaluated (.program _) value => value.Proper ∧ value.kind ≠ .returned
  | evaluated _ value => value.Proper
  | unary _ operand => operand.Plain
  | binary _ left right => left.Plain ∧ right.Plain
  | tested condition => condition.Plain
  | called callee arguments => callee.Plain ∧ ∀ value ∈ arguments, value.Plain
  | answered _ _ value => value.Proper ∧ value.kind ≠ .returned
  | sent value => value.Plain
  | bound _ _ value => value.Plain

theorem Deed.Proper.value {node : Node} {value : Value} (h : (evaluated node value).Proper) :
    value.Proper := by
  cases node with
  | program _ => exact h.1
  | _ => exact h

/-- A proper deed, at a moment when no name is bound to a signal in any scope. -/
def Moment.Proper (moment : Moment) : Prop :=
  moment.deed.Proper ∧ moment.heap.Clean

/-- All was proper so far. -/
def Record.Proper (record : Record) : Prop :=
  record.heap.Clean ∧ ∀ moment ∈ record.moments, moment.Proper

theorem Record.Proper.note {before : Record} (h : before.Proper) (deed : Deed)
    (hdeed : deed.Proper) :
    Record.Proper { before with moments := before.moments ++ [⟨deed, before.heap⟩] } := by
  refine ⟨h.1, fun moment hmoment => ?_⟩
  rcases List.mem_append.1 hmoment with hbefore | hnew
  · exact h.2 moment hbefore
  · cases List.mem_singleton.1 hnew
    exact ⟨hdeed, h.1⟩

/-- From every proper record the recording leads to a proper one, and the property holds of its
result. -/
def Keeps {α : Type} (good : α → Prop) (recording : Recording α) : Prop :=
  ∀ before : Record, before.Proper →
    match recording before with
    | .ok a after => good a ∧ after.Proper
    | .error _ after => after.Proper

namespace Keeps

variable {α β : Type} {good : α → Prop} {good' : β → Prop} {recording : Recording α}
  {next : α → Recording β}

theorem pure {a : α} (h : good a) : Keeps good (Pure.pure a) :=
  fun _ hbefore => ⟨h, hbefore⟩

theorem throw (cause : Halt) : Keeps good (throw cause : Recording α) :=
  fun _ hbefore => hbefore

theorem bind (h : Keeps good recording) (h' : ∀ a, good a → Keeps good' (next a)) :
    Keeps good' (recording >>= next) := by
  intro before hbefore
  have hfirst := h before hbefore
  simp only [Bind.bind, EStateM.bind]
  cases hrun : recording before with
  | ok a middle =>
    rw [hrun] at hfirst
    exact h' a hfirst.1 middle hfirst.2
  | error cause middle =>
    rw [hrun] at hfirst
    exact hfirst

theorem mono {good' : α → Prop} (h : Keeps good recording) (hgood : ∀ a, good a → good' a) :
    Keeps good' recording := by
  intro before hbefore
  have hrun := h before hbefore
  split at hrun
  · exact ⟨hgood _ hrun.1, hrun.2⟩
  · exact hrun

theorem lift {step : Evaluation α}
    (h : ∀ heap : Heap, heap.Clean → ∀ a after, step heap = .ok a after → good a ∧ after.Clean)
    (hthrow : ∀ heap : Heap, heap.Clean → ∀ cause after, step heap = .error cause after →
      after.Clean) :
    Keeps good (Recording.lift step) := by
  intro before hbefore
  rw [Recording.lift]
  cases hrun : step before.heap with
  | ok a heap =>
    obtain ⟨ha, hclean⟩ := h _ hbefore.1 a heap hrun
    exact ⟨ha, hclean, hbefore.2⟩
  | error cause heap => exact ⟨hthrow _ hbefore.1 cause heap hrun, hbefore.2⟩

theorem note (deed : Deed) (h : deed.Proper) {next : Unit → Recording β}
    (h' : Keeps good' (next ())) : Keeps good' (Recording.note deed >>= next) :=
  fun _ hbefore => h' _ (hbefore.note deed h)

/-- A signal passes, and data is gone on with. -/
theorem andThen {value : Value} {next : Value → Recording Value} (hvalue : value.Proper)
    (h : value.Plain → Keeps Value.Proper (next value)) :
    Keeps Value.Proper (Recording.andThen value next) := by
  rw [Recording.andThen]
  split
  · exact pure hvalue
  · exact h (by simpa [Value.Plain] using ‹¬value.isSignal = true›)

theorem integer (value : Int) : Keeps Value.Proper (Recording.lift (Evaluation.integer value)) := by
  refine lift (fun heap hclean a after hrun => ?_) fun heap hclean cause after hrun => by cases hrun
  cases hrun
  exact ⟨True.intro, hclean.stamp⟩

theorem function (closure : Closure) :
    Keeps Value.Proper (Recording.lift (Evaluation.function closure)) := by
  refine lift (fun heap hclean a after hrun => ?_) fun heap hclean cause after hrun => by cases hrun
  cases hrun
  exact ⟨True.intro, hclean.stamp⟩

theorem outcome : ∀ {outcome : Outcome}, outcome.Proper →
    Keeps Value.Proper (Recording.lift (Evaluation.outcome outcome))
  | .integer value, _ => integer value
  | .boolean _, _ => pure True.intro
  | .error _, h => pure h

theorem reference (scope : ScopeId) (name : String) :
    Keeps Value.Proper (Recording.lift (Evaluation.reference scope name)) := by
  refine lift (fun heap hclean a after hrun => ?_) fun heap hclean cause after hrun => by cases hrun
  cases hrun
  refine ⟨?_, hclean⟩
  cases hfound : heap.lookup scope name with
  | none => exact ⟨by rintro ⟨⟩, by rintro ⟨⟩⟩
  | some value => exact (hclean.lookup hfound).proper

theorem bindName (scope : ScopeId) (name : String) {value : Value} (h : value.Plain) :
    Keeps (fun _ => True) (Recording.bind scope name value) := by
  have hstep : Keeps (fun _ => True) (Recording.lift (Evaluation.bind scope name value)) := by
    refine lift (fun heap hclean a after hrun => ?_) fun heap hclean cause after hrun => by cases hrun
    cases hrun
    exact ⟨True.intro, hclean.bind scope name h⟩
  exact hstep.bind fun _ _ before hbefore =>
    ⟨True.intro, hbefore.note (.bound scope name value) h⟩

theorem bindAll (scope : ScopeId) : ∀ {bindings : List (String × Value)},
    (∀ binding ∈ bindings, binding.2.Plain) →
    Keeps (fun _ => True) (Recording.bindAll scope bindings)
  | [], _ => pure True.intro
  | (name, _) :: _, h => .bind (bindName scope name (h _ List.mem_cons_self)) fun _ _ =>
    bindAll scope fun binding hbinding => h binding (List.mem_cons_of_mem _ hbinding)

theorem enclose (outer : Option ScopeId) :
    Keeps (fun _ => True) (Recording.lift (Evaluation.enclose outer)) := by
  refine lift (fun heap hclean a after hrun => ?_) fun heap hclean cause after hrun => by cases hrun
  cases hrun
  exact ⟨True.intro, hclean.enclose outer⟩

end Keeps

/-! ## Nodes -/

section Nodes

variable {recorder : Recorder} (h : ∀ node scope, Keeps Value.Proper (recorder node scope))
include h

theorem keeps_statements (scope : ScopeId) : ∀ {before : Value} (statements : List Node),
    before.Proper → Keeps Value.Proper (recorder.statements scope before statements)
  | _, [], hbefore => .pure hbefore
  | _, first :: rest, _ => .bind (h first scope) fun _ hvalue => .andThen hvalue fun hplain =>
    keeps_statements scope rest hplain.proper

/-- Arguments are data, or one of them is a signal. -/
theorem keeps_arguments (scope : ScopeId) (arguments : List Node) :
    Keeps (fun
      | .error signal => signal.Proper
      | .ok values => ∀ value ∈ values, value.Plain) (recorder.arguments scope arguments) := by
  induction arguments with
  | nil => exact .pure (by simp)
  | cons first rest ih =>
    refine .bind (h first scope) fun value hvalue => ?_
    split
    · exact .pure hvalue
    · have hplain : value.Plain := by simpa [Value.Plain] using ‹¬value.isSignal = true›
      refine .bind ih ?_
      rintro (signal | values) hrest
      · exact .pure hrest
      · exact .pure (List.forall_mem_cons.2 ⟨hplain, hrest⟩)

theorem keeps_enter {callee : Value} {values : List Value} (hcallee : callee.Plain)
    (hvalues : ∀ value ∈ values, value.Plain) :
    Keeps (fun value => value.Proper ∧ value.kind ≠ .returned) (recorder.enter callee values) := by
  have hkind := hcallee.kind_ne
  cases callee with
  | function stamp closure =>
    rw [Recorder.enter]
    split
    · exact .pure ⟨⟨by rintro ⟨⟩, by rintro ⟨⟩⟩, by rintro ⟨⟩⟩
    · refine .bind (.enclose _) fun scope _ => .bind (.bindAll scope fun binding hbinding => ?_)
        fun _ _ => .bind (h _ scope) fun value hvalue => .pure hvalue.unwrap
      exact hvalues _ (List.of_mem_zip hbinding).2
  | _ =>
    refine .pure ⟨?_, by rintro ⟨⟩⟩
    simp [Value.Proper, Failure.Proper, Failure.kinds, Ne.symm hkind.1, Ne.symm hkind.2]

theorem keeps_apply {callee : Value} {values : List Value} (hcallee : callee.Plain)
    (hvalues : ∀ value ∈ values, value.Plain) :
    Keeps (fun value => value.Proper ∧ value.kind ≠ .returned) (recorder.apply callee values) :=
  .note (.called callee values) ⟨hcallee, hvalues⟩ <|
    .bind (keeps_enter h hcallee hvalues) fun value hvalue =>
    .note (.answered callee values value) hvalue (.pure hvalue)

theorem keeps_recordParts (node : Node) (scope : ScopeId) :
    Keeps (fun value => (Deed.evaluated node value).Proper) (recordParts recorder node scope) := by
  cases node with
  | program statements =>
    exact .bind (keeps_statements h scope statements True.intro) fun value hvalue =>
      .pure hvalue.unwrap
  | block _ statements => exact keeps_statements h scope statements True.intro
  | expression _ inner => exact h inner scope
  | result _ inner =>
    exact .bind (h inner scope) fun value hvalue => .andThen hvalue fun hplain =>
      .note (.sent value) hplain (.pure hplain)
  | binding _ identifier inner =>
    exact .bind (h inner scope) fun value hvalue => .andThen hvalue fun hplain =>
      .bind (.bindName scope identifier.name hplain) fun _ _ => .pure True.intro
  | integer _ value => exact .integer value
  | boolean _ value => exact .pure True.intro
  | reference identifier => exact .reference scope identifier.name
  | unary _ operator operand =>
    exact .bind (h operand scope) fun value hvalue => .andThen hvalue fun hplain =>
      .note (.unary operator value) hplain
        (.outcome (Outcome.proper_unary operator hplain))
  | binary _ left operator right =>
    exact .bind (h left scope) fun value hvalue => .andThen hvalue fun hplain =>
      .bind (h right scope) fun other hother => .andThen hother fun hplain' =>
      .note (.binary operator value other) ⟨hplain, hplain'⟩
        (.outcome (Outcome.proper_binary operator hplain hplain'))
  | ifThen _ condition brace body =>
    refine .bind (h condition scope) fun value hvalue => .andThen hvalue fun hplain =>
      .note (.tested value) hplain ?_
    split
    · exact h _ scope
    · exact .pure True.intro
  | ifThenElse _ condition brace body elseBrace elseBody =>
    refine .bind (h condition scope) fun value hvalue => .andThen hvalue fun hplain =>
      .note (.tested value) hplain ?_
    split
    · exact h _ scope
    · exact h _ scope
  | function _ parameters brace body => exact .function _
  | call _ callee arguments =>
    refine .bind (h callee scope) fun function hfunction => .andThen hfunction fun hplain =>
      .bind (keeps_arguments h scope arguments) ?_
    rintro (signal | values) hfound
    · exact .pure hfound
    · exact (keeps_apply h hplain hfound).mono fun _ => And.left
  | foreign name _ => exact .throw _

theorem keeps_recordWith (node : Node) (scope : ScopeId) :
    Keeps (fun value => (Deed.evaluated node value).Proper) (recordWith recorder node scope) :=
  .bind (keeps_recordParts h node scope) fun value hvalue =>
    .note (.evaluated node value) hvalue (.pure hvalue)

end Nodes

/-- Evaluation of whatever depth keeps its record proper. -/
theorem keeps_record : ∀ depth node scope,
    Keeps (fun value => (Deed.evaluated node value).Proper) (record depth node scope)
  | 0, _, _ => .throw _
  | depth + 1, node, scope => keeps_recordWith
    (fun node scope => (keeps_record depth node scope).mono fun _ => Deed.Proper.value) node scope

theorem Keeps.recordAfter {α : Type} {good : α → Prop} {recording : Recording α}
    (h : Keeps good recording) {before : Record} (hbefore : before.Proper) :
    (recording.recordAfter before).Proper := by
  have hrun := h before hbefore
  rw [Recording.recordAfter]
  cases hresult : recording before with
  | ok a after =>
    rw [hresult] at hrun
    exact hrun.2
  | error cause after =>
    rw [hresult] at hrun
    exact hrun

/-- What is kept with a record holds without it. -/
theorem Keeps.of_follows {α : Type} {good : α → Prop} {recording : Recording α}
    {evaluation : Evaluation α} (h : Keeps good recording) (hfollows : Follows recording evaluation)
    {heap after : Heap} (hclean : heap.Clean) {a : α} (hrun : evaluation heap = .ok a after) :
    good a := by
  have hproper := h { heap } ⟨hclean, by rintro _ ⟨⟩⟩
  have hforget := hfollows { heap }
  rw [hrun] at hforget
  split at hproper
  · rename_i result _ hresult
    rw [hresult] at hforget
    cases hforget
    exact hproper.1
  · rename_i hresult
    rw [hresult] at hforget
    cases hforget

theorem proper_recordAll : ∀ (tasks : List Task) {before : Record}, before.Proper →
    (recordAll tasks before).Proper
  | [], _, h => h
  | task :: rest, _, h =>
    proper_recordAll rest ((keeps_record task.depth task.node task.scope).recordAfter h)

/-- **Signals are never taken for data**, whatever is evaluated one after the other in scopes that
bind no name to a signal.  The record of it, which is kept without changing anything, is proper at
every moment; no scope ever binds a name to a signal; and from there on, too, nodes come to proper
values, programs to no `returned` ones, and neither do calls of data with data. -/
theorem signals_are_no_data {heap : Heap} (hclean : heap.Clean) (tasks : List Task) :
    let final := evaluateAll tasks heap
    (∀ depth node scope, Follows (record depth node scope) (evaluate depth node scope)) ∧
      (recordAll tasks { heap }).heap = final ∧
      (∀ moment ∈ (recordAll tasks { heap }).moments, moment.Proper) ∧
      final.Clean ∧
      (∀ depth node scope value after, evaluate depth node scope final = .ok value after →
        (Deed.evaluated node value).Proper) ∧
      ∀ depth callee values value after, callee.Plain → (∀ value ∈ values, value.Plain) →
        (evaluate depth).apply callee values final = .ok value after →
        (Deed.answered callee values value).Proper := by
  intro final
  have hstart : Record.Proper { heap } := ⟨hclean, by rintro _ ⟨⟩⟩
  have hproper := proper_recordAll tasks hstart
  have hheap : (recordAll tasks { heap }).heap = final := heap_recordAll tasks { heap }
  have hfinal : final.Clean := hheap ▸ hproper.1
  refine ⟨follows_record, hheap, hproper.2, hfinal, ?_, ?_⟩
  · intro depth node scope value after hrun
    exact (keeps_record depth node scope).of_follows (follows_record depth node scope) hfinal hrun
  · intro depth callee values value after hcallee hvalues hrun
    have hkeeps := fun node scope => (keeps_record depth node scope).mono fun _ => Deed.Proper.value
    exact (keeps_apply hkeeps hcallee hvalues).of_follows
      (follows_apply (follows_record depth) callee values) hfinal hrun

/-- In `1 + if (true) { return 2 }` the operator is never applied, and `2` is sent to the end. -/
theorem signals_are_no_data_return :
    let word (kind : TokenKind) (literal : String) : Token := ⟨kind, literal, {}⟩
    let node : Node := .program [.expression (word .int "1")
      (.binary (word .plus "+") (.integer (word .int "1") 1) "+"
        (.ifThen (word .ifWord "if") (.boolean (word .trueWord "true") true)
          (word .lbrace "\x7b") [.result (word .returnWord "return") (.integer (word .int "2") 2)]))]
    let moments := (recordAll [⟨9, node, 0⟩] { heap := .initial }).moments
    Heap.initial.Clean ∧ (∀ moment ∈ moments, moment.Proper) ∧
      moments.map (fun moment => match moment.deed with
        | .evaluated _ value => value.describe
        | .tested _ => "tested"
        | .sent _ => "sent"
        | _ => "") =
      ["Integer(1)", "Boolean(true)", "tested", "Integer(2)", "sent", "ReturnValue(2)",
        "ReturnValue(2)", "ReturnValue(2)", "ReturnValue(2)", "ReturnValue(2)", "Integer(2)"] :=
  ⟨Heap.clean_initial, (signals_are_no_data Heap.clean_initial _).2.2.1, by decide⟩

end MonkeyLang
