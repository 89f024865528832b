import MonkeyLang.Evaluation

/-!
# More depth keeps an answer

Evaluation is given up at some depth, and what that depth is should not matter to a program that never
reaches it.  It does not: if evaluation comes to an end within some depth, then within every greater one
it comes to the same end, with the same heap, down to the stamps of the values.  So a greater depth can
only turn the answer that there is none into another one.

`Evaluation.Deepens` says this of two evaluations.  It passes from the parts of a node to the node
(`deepens_evaluateWith`), and so from one depth to the next; `evaluate_of_le` is the statement about
evaluation.
-/

set_option autoImplicit false

namespace MonkeyLang

/-! ## Two evaluations -/

namespace Evaluation

variable {α β : Type}

/-- The second evaluation does the same as the first one, unless the first one is given up for its
depth. -/
def Deepens (shallow deep : Evaluation α) : Prop :=
  ∀ heap : Heap, (∃ after, shallow heap = .error .tooDeep after) ∨ deep heap = shallow heap

namespace Deepens

theorem refl (evaluation : Evaluation α) : Deepens evaluation evaluation :=
  fun _ => .inr rfl

theorem bind {shallow deep : Evaluation α} {next next' : α → Evaluation β}
    (h : Deepens shallow deep) (h' : ∀ a, Deepens (next a) (next' a)) :
    Deepens (shallow >>= next) (deep >>= next') := by
  intro heap
  simp only [Bind.bind, EStateM.bind]
  rcases h heap with ⟨after, hdeep⟩ | hsame
  · exact .inl ⟨after, by rw [hdeep]⟩
  · rw [hsame]
    cases shallow heap with
    | ok a middle => exact h' a middle
    | error cause middle => exact .inr rfl

theorem andThen {next next' : Value → Evaluation Value} (value : Value)
    (h : Deepens (next value) (next' value)) :
    Deepens (Evaluation.andThen value next) (Evaluation.andThen value next') := by
  rw [Evaluation.andThen, Evaluation.andThen]
  split
  · exact refl _
  · exact h

end Deepens

end Evaluation

/-! ## Nodes -/

section Nodes

open Evaluation

/-- The second evaluator does the same with every node as the first one, unless the first one gives up
for the depth. -/
def Evaluator.Deepens (shallow deep : Evaluator) : Prop :=
  ∀ node scope, Evaluation.Deepens (shallow node scope) (deep node scope)

variable {shallow deep : Evaluator} (h : shallow.Deepens deep)
include h

theorem deepens_statements (scope : ScopeId) : ∀ (before : Value) (statements : List Node),
    Deepens (shallow.statements scope before statements) (deep.statements scope before statements)
  | _, [] => .refl _
  | _, first :: rest => .bind (h first scope) fun value =>
    .andThen value (deepens_statements scope value rest)

theorem deepens_arguments (scope : ScopeId) (arguments : List Node) :
    Deepens (shallow.arguments scope arguments) (deep.arguments scope arguments) := by
  induction arguments with
  | nil => exact .refl _
  | cons first rest ih =>
    refine .bind (h first scope) fun value => ?_
    split
    · exact .refl _
    · exact .bind ih fun _ => .refl _

theorem deepens_apply (callee : Value) (values : List Value) :
    Deepens (shallow.apply callee values) (deep.apply callee values) := by
  cases callee with
  | function stamp closure =>
    rw [Evaluator.apply, Evaluator.apply]
    split
    · exact .refl _
    · exact .bind (.refl _) fun scope => .bind (.refl _) fun _ => .bind (h _ scope) fun _ => .refl _
  | _ => exact .refl _

theorem deepens_evaluateWith : Evaluator.Deepens (evaluateWith shallow) (evaluateWith deep) := by
  intro node scope
  cases node with
  | program statements => exact .bind (deepens_statements h scope .null statements) fun _ => .refl _
  | block _ statements => exact deepens_statements h scope .null statements
  | expression _ inner => exact h inner scope
  | result _ inner | binding _ _ inner | unary _ _ inner =>
    exact .bind (h inner scope) fun value => .andThen value (.refl _)
  | integer _ _ | boolean _ _ | reference _ | function _ _ _ _ | foreign _ _ => exact .refl _
  | binary _ left _ right =>
    exact .bind (h left scope) fun value => .andThen value <|
      .bind (h right scope) fun other => .andThen other (.refl _)
  | ifThen _ condition _ _ =>
    refine .bind (h condition scope) fun value => .andThen value ?_
    split
    · exact h _ scope
    · exact .refl _
  | ifThenElse _ condition _ _ _ _ =>
    refine .bind (h condition scope) fun value => .andThen value ?_
    split
    · exact h _ scope
    · exact h _ scope
  | call _ callee arguments =>
    refine .bind (h callee scope) fun function => .andThen function ?_
    refine .bind (deepens_arguments h scope arguments) ?_
    rintro (signal | values)
    · exact .refl _
    · exact deepens_apply h function values

end Nodes

theorem deepens_evaluate : ∀ {depth depth' : Nat}, depth ≤ depth' →
    (evaluate depth).Deepens (evaluate depth')
  | 0, _, _ => fun _ _ heap => .inl ⟨heap, rfl⟩
  | _ + 1, 0, hle => absurd hle (Nat.not_succ_le_zero _)
  | _ + 1, _ + 1, hle => deepens_evaluateWith (deepens_evaluate (Nat.le_of_succ_le_succ hle))

/-- **More depth keeps an answer.**  An evaluation that is not given up for its depth comes to the same
end, with the same heap, whatever greater depth it is allowed; and one that is given up although more
depth is allowed is given up with less. -/
theorem evaluate_of_le {depth depth' : Nat} (hle : depth ≤ depth') (node : Node) (scope : ScopeId)
    (heap : Heap) :
    ((∀ after, evaluate depth node scope heap ≠ .error .tooDeep after) →
      evaluate depth' node scope heap = evaluate depth node scope heap) ∧
    ∀ after, evaluate depth' node scope heap = .error .tooDeep after →
      ∃ after', evaluate depth node scope heap = .error .tooDeep after' := by
  rcases deepens_evaluate hle node scope heap with hdeep | hsame
  · obtain ⟨after', hdeep⟩ := hdeep
    exact ⟨fun hfinished => absurd hdeep (hfinished after'), fun _ _ => ⟨after', hdeep⟩⟩
  · exact ⟨fun _ => hsame, fun after hafter => ⟨after, hsame ▸ hafter⟩⟩

/-- The call in `fn(x) { !x }(false)` needs a depth of five.  With four the parameter is bound, and then
evaluation is given up. -/
theorem evaluate_of_le_call :
    let word (kind : TokenKind) (literal : String) : Token := ⟨kind, literal, {}⟩
    let x : Identifier := ⟨word .ident "x", "x"⟩
    let node : Node := .call (word .lparen "(")
      (.function (word .function "fn") [x] (word .lbrace "\x7b")
        [.expression (word .bang "!") (.unary (word .bang "!") "!" (.reference x))])
      [.boolean (word .falseWord "false") false]
    let after : Heap := ⟨#[{}, { bindings := [("x", .boolean false)], outer := some 0 }], 1⟩
    evaluate 4 node 0 .initial = .error .tooDeep after ∧
      evaluate 5 node 0 .initial = .ok (.boolean true) after ∧ 5 ≤ 1000 ∧
      evaluate 1000 node 0 .initial = .ok (.boolean true) after := by
  intro word x node after
  have hfive : evaluate 5 node 0 .initial = .ok (.boolean true) after := rfl
  have hfinished : ∀ after, evaluate 5 node 0 .initial ≠ .error .tooDeep after := by
    intro after hafter
    cases hfive.symm.trans hafter
  refine ⟨rfl, hfive, by decide, ?_⟩
  rw [(evaluate_of_le (by decide : 5 ≤ 1000) node 0 .initial).1 hfinished]
  exact hfive

end MonkeyLang
