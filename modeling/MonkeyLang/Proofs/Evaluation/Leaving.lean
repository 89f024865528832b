import MonkeyLang.Proofs.Evaluation.Agreement

/-!
# A signal ends everything around it

The evaluation of a node comes to the evaluation of its parts one after the other, as long as the
values before are plain (`ComesTo`).  If the part that it has come to gives a signal, then the node
gives the same signal, and the heap stays as the part has left it: nothing further is evaluated
(`ComesTo.abandons`).

Together with the agreement of evaluation and interpretation this is `evaluate_program`: a program
evaluates to what it is interpreted as, with the same bindings in all scopes, and it is given up
where the interpretation is.
-/

set_option autoImplicit false

namespace MonkeyLang

/-! ## Coming to a part -/

/-- The evaluation of a node in a scope, from some heap, comes to the evaluation of a part of the
node, in the same scope and with a heap that may have changed by then. -/
inductive ComesTo (scope : ScopeId) : Nat → Node → Heap → Nat → Node → Heap → Prop
  | here {depth : Nat} {node : Node} {heap : Heap} : ComesTo scope depth node heap depth node heap
  | operand {depth depth' : Nat} {token : Token} {operator : String} {operand part : Node}
      {heap heap' : Heap} (h : ComesTo scope depth operand heap depth' part heap') :
      ComesTo scope (depth + 1) (.unary token operator operand) heap depth' part heap'
  | left {depth depth' : Nat} {token : Token} {operator : String} {left right part : Node}
      {heap heap' : Heap} (h : ComesTo scope depth left heap depth' part heap') :
      ComesTo scope (depth + 1) (.binary token left operator right) heap depth' part heap'
  | right {depth depth' : Nat} {token : Token} {operator : String} {left right part : Node}
      {value : Value} {heap middle heap' : Heap}
      (hleft : evaluate depth left scope heap = .ok value middle) (hplain : value.Plain)
      (h : ComesTo scope depth right middle depth' part heap') :
      ComesTo scope (depth + 1) (.binary token left operator right) heap depth' part heap'
  | condition {depth depth' : Nat} {token brace : Token} {condition part : Node}
      {body : List Node} {heap heap' : Heap}
      (h : ComesTo scope depth condition heap depth' part heap') :
      ComesTo scope (depth + 1) (.ifThen token condition brace body) heap depth' part heap'
  | branch {depth depth' : Nat} {token brace : Token} {condition part : Node} {body : List Node}
      {value : Value} {heap middle heap' : Heap}
      (hcondition : evaluate depth condition scope heap = .ok value middle)
      (hplain : value.Plain) (htruthy : value.isTruthy = true)
      (h : ComesTo scope depth (.block brace body) middle depth' part heap') :
      ComesTo scope (depth + 1) (.ifThen token condition brace body) heap depth' part heap'
  | conditionElse {depth depth' : Nat} {token brace elseBrace : Token} {condition part : Node}
      {body elseBody : List Node} {heap heap' : Heap}
      (h : ComesTo scope depth condition heap depth' part heap') :
      ComesTo scope (depth + 1) (.ifThenElse token condition brace body elseBrace elseBody) heap
        depth' part heap'
  | branchElse {depth depth' : Nat} {token brace elseBrace : Token} {condition part : Node}
      {body elseBody : List Node} {value : Value} {heap middle heap' : Heap}
      (hcondition : evaluate depth condition scope heap = .ok value middle)
      (hplain : value.Plain)
      (h : ComesTo scope depth
        (if value.isTruthy then .block brace body else .block elseBrace elseBody) middle
        depth' part heap') :
      ComesTo scope (depth + 1) (.ifThenElse token condition brace body elseBrace elseBody) heap
        depth' part heap'
  | callee {depth depth' : Nat} {token : Token} {callee part : Node} {arguments : List Node}
      {heap heap' : Heap} (h : ComesTo scope depth callee heap depth' part heap') :
      ComesTo scope (depth + 1) (.call token callee arguments) heap depth' part heap'
  | argument {depth depth' : Nat} {token : Token} {callee argument part : Node}
      {before after : List Node} {value : Value} {values : List Value}
      {heap middle middle' heap' : Heap}
      (hcallee : evaluate depth callee scope heap = .ok value middle) (hplain : value.Plain)
      (hbefore : (evaluate depth).arguments scope before middle = .ok (.ok values) middle')
      (h : ComesTo scope depth argument middle' depth' part heap') :
      ComesTo scope (depth + 1) (.call token callee (before ++ argument :: after)) heap
        depth' part heap'
  | bound {depth depth' : Nat} {token : Token} {identifier : Identifier} {value part : Node}
      {heap heap' : Heap} (h : ComesTo scope depth value heap depth' part heap') :
      ComesTo scope (depth + 1) (.binding token identifier value) heap depth' part heap'
  | result {depth depth' : Nat} {token : Token} {value part : Node} {heap heap' : Heap}
      (h : ComesTo scope depth value heap depth' part heap') :
      ComesTo scope (depth + 1) (.result token value) heap depth' part heap'
  | inner {depth depth' : Nat} {token : Token} {inner part : Node} {heap heap' : Heap}
      (h : ComesTo scope depth inner heap depth' part heap') :
      ComesTo scope (depth + 1) (.expression token inner) heap depth' part heap'
  | statement {depth depth' : Nat} {token : Token} {statement part : Node}
      {before after : List Node} {value : Value} {heap middle heap' : Heap}
      (hbefore : (evaluate depth).statements scope .null before heap = .ok value middle)
      (hplain : value.Plain) (h : ComesTo scope depth statement middle depth' part heap') :
      ComesTo scope (depth + 1) (.block token (before ++ statement :: after)) heap
        depth' part heap'

/-! ## Abandoning the rest -/

namespace Evaluation

variable {α β : Type} {evaluation : Evaluation α} {next : α → Evaluation β} {a : α}
  {heap after : Heap}

theorem bind_ok (h : evaluation heap = .ok a after) :
    (evaluation >>= next) heap = next a after := by
  simp only [Bind.bind, EStateM.bind, h]

/-- What comes to an end has come past its first step. -/
theorem of_bind_ok {b : β} (h : (evaluation >>= next) heap = .ok b after) :
    ∃ a middle, evaluation heap = .ok a middle ∧ next a middle = .ok b after := by
  simp only [Bind.bind, EStateM.bind] at h
  cases hrun : evaluation heap with
  | ok a middle =>
    rw [hrun] at h
    exact ⟨a, middle, rfl, h⟩
  | error cause middle =>
    rw [hrun] at h
    cases h

/-- A signal is passed on. -/
theorem andThen_signal {evaluation : Evaluation Value} {next : Value → Evaluation Value}
    {value : Value} (h : evaluation heap = .ok value after) (hsignal : ¬value.Plain) :
    (evaluation >>= fun value => andThen value next) heap = .ok value after := by
  rw [bind_ok h, andThen, if_pos (by simpa [Value.Plain] using hsignal)]
  rfl

/-- Evaluation goes on with a plain value. -/
theorem andThen_plain {evaluation : Evaluation Value} {next : Value → Evaluation Value}
    {value : Value} (h : evaluation heap = .ok value after) (hplain : value.Plain) :
    (evaluation >>= fun value => andThen value next) heap = next value after := by
  rw [bind_ok h, andThen, if_neg (by rw [hplain]; decide)]

end Evaluation

namespace Evaluator

open Evaluation

variable {evaluator : Evaluator} {scope : ScopeId}

/-- Statements are evaluated up to the first signal. -/
theorem statements_append : ∀ {before rest : List Node} {start value : Value} {heap middle : Heap},
    evaluator.statements scope start before heap = .ok value middle → value.Plain →
    evaluator.statements scope start (before ++ rest) heap =
      evaluator.statements scope value rest middle
  | [], rest, start, value, heap, middle, hbefore, _ => by
    cases hbefore
    rfl
  | first :: before, rest, start, value, heap, middle, hbefore, hplain => by
    obtain ⟨value', after, hfirst, -⟩ := of_bind_ok hbefore
    rw [statements] at hbefore
    by_cases hplain' : value'.Plain
    · rw [andThen_plain hfirst hplain'] at hbefore
      rw [List.cons_append, statements, andThen_plain hfirst hplain']
      exact statements_append hbefore hplain
    · rw [andThen_signal hfirst hplain'] at hbefore
      cases hbefore
      exact absurd hplain hplain'

/-- Arguments are evaluated up to the first signal. -/
theorem arguments_append {part : Node} {rest : List Node} {signal : Value} {middle after : Heap}
    (hpart : evaluator part scope middle = .ok signal after) (hsignal : signal.isSignal = true) :
    ∀ {before : List Node} {values : List Value} {heap : Heap},
    evaluator.arguments scope before heap = .ok (.ok values) middle →
    evaluator.arguments scope (before ++ part :: rest) heap = .ok (.error signal) after
  | [], values, heap, hbefore => by
    cases hbefore
    rw [List.nil_append, arguments, bind_ok hpart, if_pos hsignal]
    rfl
  | first :: before, values, heap, hbefore => by
    obtain ⟨value, next, hfirst, hnext⟩ := of_bind_ok hbefore
    rw [List.cons_append, arguments, bind_ok hfirst]
    by_cases hvalue : value.isSignal = true
    · rw [if_pos hvalue] at hnext
      cases hnext
    · rw [if_neg hvalue] at hnext ⊢
      obtain ⟨found, middle', hrest, hfound⟩ := of_bind_ok hnext
      cases found with
      | error _ => cases hfound
      | ok values' =>
        cases hfound
        rw [bind_ok (arguments_append hpart hsignal hrest)]
        rfl

end Evaluator

open Evaluation in
/-- **A signal ends everything around it**: the node has the signal for its value, and the heap is
what the part has left. -/
theorem ComesTo.abandons {scope : ScopeId} {depth depth' : Nat} {node part : Node}
    {heap heap' after : Heap} {signal : Value}
    (h : ComesTo scope depth node heap depth' part heap')
    (hpart : evaluate depth' part scope heap' = .ok signal after)
    (hsignal : signal.isSignal = true) : evaluate depth node scope heap = .ok signal after := by
  have hnot : ¬signal.Plain := by
    rw [Value.Plain, hsignal]
    decide
  induction h with
  | here => exact hpart
  | operand _ ih | left _ ih | condition _ ih | conditionElse _ ih | callee _ ih | bound _ ih
  | result _ ih => exact andThen_signal (ih hpart) hnot
  | right hleft hplain _ ih =>
    refine (andThen_plain hleft hplain).trans ?_
    exact andThen_signal (ih hpart) hnot
  | branch hcondition hplain htruthy _ ih =>
    refine (andThen_plain hcondition hplain).trans ?_
    rw [if_pos htruthy]
    exact ih hpart
  | @branchElse _ _ _ _ _ _ _ _ _ value _ _ _ hcondition hplain _ ih =>
    refine (andThen_plain hcondition hplain).trans ?_
    have ih := ih hpart
    split at ih
    · rw [if_pos ‹_›]
      exact ih
    · rw [if_neg ‹_›]
      exact ih
  | argument hcallee hplain hbefore _ ih =>
    refine (andThen_plain hcallee hplain).trans ?_
    exact bind_ok (Evaluator.arguments_append (ih hpart) hsignal hbefore)
  | inner _ ih => exact ih hpart
  | statement hbefore hplain _ ih =>
    refine (Evaluator.statements_append hbefore hplain).trans ?_
    exact andThen_signal (ih hpart) hnot

/-! ## Programs -/

theorem evaluate_program_eq {heap : Heap} (hclean : heap.Clean) (statements : List Node)
    (scope : ScopeId) : ∀ depth,
    evaluate depth (.program statements) scope heap = interpretProgram depth statements scope heap
  | 0 => rfl
  | depth + 1 => by
    have hagree := agrees_statements (agree_evaluate depth) scope statements .null rfl heap hclean
    show ((evaluate depth).statements scope .null statements >>= fun value =>
      pure value.unwrap) heap = _
    simp only [interpretProgram, Bind.bind, EStateM.bind]
    revert hagree
    generalize (evaluate depth).statements scope .null statements heap = result
    generalize (interpret depth).statements scope .null statements heap = result'
    intro hagree
    cases hagree with
    | plain hsame =>
      obtain ⟨rfl, hplain⟩ := hsame
      exact congrArg (EStateM.Result.ok · _) hplain.unwrap_eq
    | returned | failed | halted => rfl

/-- **A program evaluates to what it is interpreted as**: the value, the bindings in all scopes, and
the bound at which it is given up are the same, if no name is bound to a signal in the beginning.
And whatever node is evaluated, a signal of the part that its evaluation has come to is its value at
once. -/
theorem evaluate_program {heap : Heap} (hclean : heap.Clean) (depth : Nat)
    (statements : List Node) (scope : ScopeId) :
    evaluate depth (.program statements) scope heap =
        interpretProgram depth statements scope heap ∧
      ∀ (place : ScopeId) (bound bound' : Nat) (node part : Node) (before middle after : Heap)
        (signal : Value), ComesTo place bound node before bound' part middle →
        evaluate bound' part place middle = .ok signal after → signal.isSignal = true →
        evaluate bound node place before = .ok signal after :=
  ⟨evaluate_program_eq hclean statements scope depth,
    fun _ _ _ _ _ _ _ _ _ h hpart hsignal => h.abandons hpart hsignal⟩

/-- In the program `-true` the sign fails. -/
theorem evaluate_program_initial :
    let statements : List Node :=
      [.expression ⟨.minus, "-", {}⟩
        (.unary ⟨.minus, "-", {}⟩ "-" (.boolean ⟨.trueWord, "true", {}⟩ true))]
    Heap.initial.Clean ∧
      evaluate 4 (.program statements) 0 Heap.initial =
        interpretProgram 4 statements 0 Heap.initial ∧
      evaluate 4 (.program statements) 0 Heap.initial =
        .ok (.error (.noUnary "-" .boolean)) Heap.initial :=
  ⟨Heap.clean_initial, (evaluate_program Heap.clean_initial 4 _ 0).1, rfl⟩

end MonkeyLang
