import MonkeyLang.Proofs.Evaluation.Clean
import MonkeyLang.Proofs.Evaluation.Interpretation

/-!
# Signals do what leaving does

Evaluation and interpretation agree: they end with the same heap, and the one has a signal for its
value where the other is left with what the signal carries (`Agree`).  This is shown along the nodes,
which are evaluated from their parts by a few ways of putting steps together.  For each of these there
is one rule (`Agrees.bind` and those behind it).

What carries the proof is that a signal is never taken for data.  So the values that are passed on
are plain in both, and the heap stays clean.
-/

set_option autoImplicit false

namespace MonkeyLang

/-! ## Agreement of results -/

/-- Two results agree.  The relation says which results without a signal correspond, and the function
how a signal appears among the results of evaluation. -/
inductive Agree {α β : Type} (signal : Value → α) (same : α → β → Prop) :
    EStateM.Result Halt Heap α → EStateM.Result Leave Heap β → Prop
  | plain {a : α} {b : β} {heap : Heap} (hsame : same a b) (hclean : heap.Clean) :
      Agree signal same (.ok a heap) (.ok b heap)
  | returned {value : Value} {heap : Heap} (hplain : value.Plain) (hclean : heap.Clean) :
      Agree signal same (.ok (signal (.returned value)) heap) (.error (.returned value) heap)
  | failed {cause : Failure} {heap : Heap} (hclean : heap.Clean) :
      Agree signal same (.ok (signal (.error cause)) heap) (.error (.failed cause) heap)
  | halted {cause : Halt} {heap : Heap} :
      Agree signal same (.error cause heap) (.error (.halted cause) heap)

/-- From every clean heap, evaluation and interpretation agree. -/
def Agrees {α β : Type} (signal : Value → α) (same : α → β → Prop) (evaluation : Evaluation α)
    (interpretation : Interpretation β) : Prop :=
  ∀ heap : Heap, heap.Clean → Agree signal same (evaluation heap) (interpretation heap)

/-- The same plain value. -/
def SamePlain (first second : Value) : Prop :=
  first = second ∧ first.Plain

/-- Agreement about a value. -/
abbrev AgreesOnValue : Evaluation Value → Interpretation Value → Prop :=
  Agrees id SamePlain

/-- Agreement about a list of values. -/
abbrev AgreesOnValues : Evaluation (Except Value (List Value)) → Interpretation (List Value) → Prop :=
  Agrees Except.error fun result values => result = .ok values ∧ ∀ value ∈ values, value.Plain

namespace Agrees

variable {α β γ δ : Type} {signal : Value → α} {same : α → β → Prop} {signal' : Value → γ}
  {same' : γ → δ → Prop}

theorem pure {a : α} {b : β} (h : same a b) :
    Agrees signal same (Pure.pure a) (Pure.pure b) :=
  fun _ hclean => .plain h hclean

theorem fail (cause : Failure) :
    Agrees signal same (Pure.pure (signal (.error cause))) (throw (.failed cause)) :=
  fun _ hclean => .failed hclean

/-- One step after the other.  The second one only looks at a signal to pass it on. -/
theorem bind {evaluation : Evaluation α} {interpretation : Interpretation β}
    {next : α → Evaluation γ} {next' : β → Interpretation δ}
    (h : Agrees signal same evaluation interpretation)
    (hsignal : ∀ value : Value, ¬value.Plain → next (signal value) = Pure.pure (signal' value))
    (hnext : ∀ a b, same a b → Agrees signal' same' (next a) (next' b)) :
    Agrees signal' same' (evaluation >>= next) (interpretation >>= next') := by
  intro heap hclean
  have hagree := h heap hclean
  simp only [Bind.bind, EStateM.bind]
  revert hagree
  generalize evaluation heap = result
  generalize interpretation heap = result'
  intro hagree
  cases hagree with
  | plain hsame hclean => exact hnext _ _ hsame _ hclean
  | returned hplain hclean =>
    simp only [hsignal (.returned _) (by simp [Value.Plain, Value.isSignal])]
    exact .returned hplain hclean
  | failed hclean =>
    simp only [hsignal (.error _) (by simp [Value.Plain, Value.isSignal])]
    exact .failed hclean
  | halted => exact .halted

/-- A step that meets no signal is the same for both. -/
theorem bind_lift {next : α → Evaluation γ} {next' : α → Interpretation δ} {step : Evaluation α}
    (hstep : ∀ heap : Heap, heap.Clean → ∀ a after, step heap = .ok a after → after.Clean)
    (hnext : ∀ a, Agrees signal' same' (next a) (next' a)) :
    Agrees signal' same' (step >>= next) (Interpretation.lift step >>= next') := by
  intro heap hclean
  simp only [Bind.bind, EStateM.bind, Interpretation.lift]
  cases hrun : step heap with
  | ok a after => exact hnext a after (hstep heap hclean a after hrun)
  | error cause after => exact .halted

end Agrees

/-! ## Signals among values -/

/-- The steps of a node look at a value with `andThen`. -/
theorem AgreesOnValue.andThen {evaluation : Evaluation Value} {interpretation : Interpretation Value}
    {next : Value → Evaluation Value} {next' : Value → Interpretation Value}
    (h : AgreesOnValue evaluation interpretation)
    (hnext : ∀ value : Value, value.Plain → AgreesOnValue (next value) (next' value)) :
    AgreesOnValue (evaluation >>= fun value => Evaluation.andThen value next)
      (interpretation >>= next') := by
  refine Agrees.bind h (fun value hsignal => ?_) ?_
  · rw [Evaluation.andThen, if_pos (by simpa [Value.Plain] using hsignal)]
  · rintro value _ ⟨rfl, hplain⟩
    rw [Evaluation.andThen, if_neg (by rw [hplain]; decide)]
    exact hnext value hplain

/-- Unwrapping catches what is returned and lets failures pass. -/
theorem AgreesOnValue.unwrap {evaluation : Evaluation Value} {interpretation : Interpretation Value}
    (h : AgreesOnValue evaluation interpretation) :
    AgreesOnValue (evaluation >>= fun value => Pure.pure value.unwrap)
      (Interpretation.catchReturned interpretation) := by
  intro heap hclean
  have hagree := h heap hclean
  simp only [Bind.bind, EStateM.bind, Interpretation.catchReturned]
  revert hagree
  generalize evaluation heap = result
  generalize interpretation heap = result'
  intro hagree
  cases hagree with
  | @plain value _ _ hsame hclean =>
    obtain ⟨rfl, hplain⟩ := hsame
    simp only [hplain.unwrap_eq]
    exact .plain ⟨rfl, hplain⟩ hclean
  | returned hplain hclean => exact .plain ⟨rfl, hplain⟩ hclean
  | failed hclean => exact .failed hclean
  | halted => exact .halted

/-! ## Steps that meet the heap -/

theorem AgreesOnValue.lift {step : Evaluation Value}
    (hstep : ∀ heap : Heap, heap.Clean → ∀ value after, step heap = .ok value after →
      value.Plain ∧ after.Clean) :
    AgreesOnValue step (Interpretation.lift step) := by
  intro heap hclean
  simp only [Interpretation.lift]
  cases hrun : step heap with
  | ok value after =>
    obtain ⟨hplain, hafter⟩ := hstep heap hclean value after hrun
    exact .plain ⟨rfl, hplain⟩ hafter
  | error cause after => exact .halted

theorem agrees_integer (value : Int) :
    AgreesOnValue (Evaluation.integer value) (.lift (Evaluation.integer value)) := by
  refine .lift fun heap hclean value after hrun => ?_
  cases hrun
  exact ⟨rfl, hclean.stamp⟩

theorem agrees_function (closure : Closure) :
    AgreesOnValue (Evaluation.function closure) (.lift (Evaluation.function closure)) := by
  refine .lift fun heap hclean value after hrun => ?_
  cases hrun
  exact ⟨rfl, hclean.stamp⟩

theorem agrees_outcome : ∀ outcome : Outcome,
    AgreesOnValue (Evaluation.outcome outcome) (Interpretation.outcome outcome)
  | .integer value => agrees_integer value
  | .boolean _ => .pure ⟨rfl, rfl⟩
  | .error cause => .fail cause

theorem agrees_reference (scope : ScopeId) (name : String) :
    AgreesOnValue (Evaluation.reference scope name) (Interpretation.reference scope name) := by
  intro heap hclean
  have hget : (get : Evaluation Heap) heap = .ok heap heap := rfl
  have hget' : (get : Interpretation Heap) heap = .ok heap heap := rfl
  simp only [Evaluation.reference, Interpretation.reference, Bind.bind, EStateM.bind, hget, hget',
    Pure.pure, EStateM.pure]
  cases hfound : heap.lookup scope name with
  | none => exact .failed hclean
  | some value => exact .plain ⟨rfl, hclean.lookup hfound⟩ hclean

theorem clean_bindAll {scope : ScopeId} : ∀ {bindings : List (String × Value)},
    (∀ binding ∈ bindings, binding.2.Plain) → ∀ heap : Heap, heap.Clean → ∀ result after,
    Evaluation.bindAll scope bindings heap = .ok result after → after.Clean
  | [], _, heap, hclean, _, after, hrun => by
    cases hrun
    exact hclean
  | (name, value) :: rest, hplain, heap, hclean, _, after, hrun =>
    clean_bindAll (fun binding hmem => hplain binding (List.mem_cons_of_mem _ hmem)) _
      (hclean.bind scope name (hplain _ List.mem_cons_self)) _ after hrun

/-! ## Nodes -/

section Nodes

variable {evaluator : Evaluator} {interpreter : Interpreter}

/-- Evaluator and interpreter agree on every node. -/
def AgreeOnNodes (evaluator : Evaluator) (interpreter : Interpreter) : Prop :=
  ∀ node scope, AgreesOnValue (evaluator node scope) (interpreter node scope)

variable (h : AgreeOnNodes evaluator interpreter)
include h

theorem agrees_statements (scope : ScopeId) : ∀ (statements : List Node) (before : Value),
    before.Plain → AgreesOnValue (evaluator.statements scope before statements)
      (interpreter.statements scope before statements)
  | [], _, hplain => .pure ⟨rfl, hplain⟩
  | first :: rest, _, _ => (h first scope).andThen fun value hplain =>
    agrees_statements scope rest value hplain

theorem agrees_arguments (scope : ScopeId) (arguments : List Node) :
    AgreesOnValues (evaluator.arguments scope arguments) (interpreter.arguments scope arguments) := by
  induction arguments with
  | nil => exact .pure ⟨rfl, by simp⟩
  | cons first rest ih =>
    refine Agrees.bind (h first scope) (fun value hsignal => ?_) ?_
    · rw [id, if_pos (by simpa [Value.Plain] using hsignal)]
    · rintro value _ ⟨rfl, hplain⟩
      rw [if_neg (by rw [hplain]; decide)]
      refine Agrees.bind ih (fun _ _ => rfl) ?_
      rintro _ values ⟨rfl, hvalues⟩
      refine .pure ⟨rfl, fun other hother => ?_⟩
      rcases List.mem_cons.1 hother with rfl | hother
      · exact hplain
      · exact hvalues other hother

theorem agrees_apply (callee : Value) (values : List Value)
    (hvalues : ∀ value ∈ values, value.Plain) :
    AgreesOnValue (evaluator.apply callee values) (interpreter.apply callee values) := by
  cases callee with
  | function stamp closure =>
    simp only [Evaluator.apply, Interpreter.apply]
    split
    · exact .fail _
    · refine .bind_lift (fun heap hclean scope after hrun => ?_) fun scope =>
        .bind_lift (clean_bindAll fun binding hmem => ?_) fun _ => (h _ scope).unwrap
      · cases hrun
        exact hclean.enclose _
      · exact hvalues _ (List.of_mem_zip hmem).2
  | _ => exact .fail _

theorem agrees_evaluateWith : AgreeOnNodes (evaluateWith evaluator) (interpretWith interpreter) := by
  intro node scope
  cases node with
  | program statements => exact (agrees_statements h scope statements .null rfl).unwrap
  | block _ statements => exact agrees_statements h scope statements .null rfl
  | expression _ inner => exact h inner scope
  | result _ inner =>
    refine (h inner scope).andThen fun value hplain heap hclean => ?_
    exact .returned hplain hclean
  | binding _ identifier inner =>
    refine (h inner scope).andThen fun value hplain => ?_
    refine .bind_lift (fun heap hclean _ after hrun => ?_) fun _ => .pure ⟨rfl, rfl⟩
    cases hrun
    exact hclean.bind scope _ hplain
  | integer _ value => exact agrees_integer value
  | boolean _ value => exact .pure ⟨rfl, rfl⟩
  | reference identifier => exact agrees_reference scope _
  | unary _ operator operand => exact (h operand scope).andThen fun _ _ => agrees_outcome _
  | binary _ left operator right =>
    exact (h left scope).andThen fun _ _ => (h right scope).andThen fun _ _ => agrees_outcome _
  | ifThen _ condition brace body =>
    refine (h condition scope).andThen fun value _ => ?_
    split
    · exact h _ scope
    · exact .pure ⟨rfl, rfl⟩
  | ifThenElse _ condition brace body elseBrace elseBody =>
    refine (h condition scope).andThen fun value _ => ?_
    split
    · exact h _ scope
    · exact h _ scope
  | function _ parameters brace body => exact agrees_function _
  | call _ callee arguments =>
    refine (h callee scope).andThen fun function _ => ?_
    refine Agrees.bind (agrees_arguments h scope arguments) (fun _ _ => rfl) ?_
    rintro _ values ⟨rfl, hvalues⟩
    exact agrees_apply h function values hvalues
  | foreign name _ => exact fun heap hclean => .halted

end Nodes

/-- **Evaluation does what interpretation does**, down to every depth. -/
theorem agree_evaluate : ∀ depth, AgreeOnNodes (evaluate depth) (interpret depth)
  | 0, _, _, _, _ => .halted
  | depth + 1, node, scope, heap, hclean =>
    agrees_evaluateWith (agree_evaluate depth) node scope heap hclean

end MonkeyLang
