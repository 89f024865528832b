import MonkeyLang.Node.Render
import MonkeyLang.Parser.Expression

/-!
# Trees that can be written

A tree may be put together in ways that no text is read as: with a name that is a reserved word, with
a negative integer, with a statement where an expression belongs.  The trees of the language are
those with valid names, integers and operators, and with statements and expressions in their places
(`Node.ValidExpression`, `Node.ValidStatement`).

What a valid tree is rendered as does not depend on its tokens: two of them with the same `skeleton`
are rendered alike (`Node.render_eq_of_skeleton`).
-/

set_option autoImplicit false

namespace MonkeyLang

/-! ## Valid trees -/

/-- The operators in front of their operand. -/
def unaryOperators : List String :=
  ["!", "-"]

/-- The operators between their operands. -/
def binaryOperators : List String :=
  ["||", "&&", "==", "!=", "<", "<=", ">", ">=", "+", "-", "*", "/"]

/-- The words that are no names. -/
def reservedWords : List String :=
  ["fn", "let", "true", "false", "if", "else", "return"]

/-- A name is a word of letters and underscores, and not a reserved one. -/
structure Identifier.Valid (identifier : Identifier) : Prop where
  nonempty : identifier.name.toList ≠ []
  letters : ∀ c ∈ identifier.name.toList, Token.isLetter c = true
  unreserved : identifier.name ∉ reservedWords

theorem TokenKind.ofWord_eq_ident_iff {word : String} :
    ofWord word = .ident ↔ word ∉ reservedWords := by
  constructor
  · intro h hmem
    have hwords : ∀ word ∈ reservedWords, ofWord word ≠ .ident := by decide
    exact hwords word hmem h
  · intro h
    simp only [reservedWords, List.mem_cons, List.not_mem_nil, or_false, not_or] at h
    obtain ⟨hfn, hlet, htrue, hfalse, hif, helse, hreturn⟩ := h
    rw [ofWord, if_neg hfn, if_neg hlet, if_neg htrue, if_neg hfalse, if_neg hif, if_neg helse,
      if_neg hreturn]

/-- Every reserved word has a kind for itself. -/
theorem TokenKind.ofWord_inj {word word' : String} (hword : word ∈ reservedWords)
    (h : ofWord word' = ofWord word) : word' = word := by
  by_cases hword' : word' ∈ reservedWords
  · have hwords : ∀ word ∈ reservedWords, ∀ word' ∈ reservedWords,
        ofWord word' = ofWord word → word' = word := by decide
    exact hwords word hword word' hword' h
  · rw [ofWord_eq_ident_iff.2 hword'] at h
    exact absurd hword (ofWord_eq_ident_iff.1 h.symm)

namespace Node

mutual

/-- The tree is one of an expression. -/
def ValidExpression : Node → Prop
  | reference identifier => identifier.Valid
  | integer _ value => 0 ≤ value ∧ value ≤ Parser.largestInteger
  | boolean .. => True
  | unary _ operator operand => operator ∈ unaryOperators ∧ operand.ValidExpression
  | binary _ left operator right =>
    operator ∈ binaryOperators ∧ left.ValidExpression ∧ right.ValidExpression
  | ifThen _ condition _ body => condition.ValidExpression ∧ ValidStatements body
  | ifThenElse _ condition _ body _ elseBody =>
    condition.ValidExpression ∧ ValidStatements body ∧ ValidStatements elseBody
  | function token parameters _ body =>
    token.literal = "fn" ∧ (∀ parameter ∈ parameters, parameter.Valid) ∧ ValidStatements body
  | call _ callee arguments => callee.ValidExpression ∧ ValidExpressions arguments
  | _ => False

/-- The tree is one of a statement. -/
def ValidStatement : Node → Prop
  | binding token identifier value =>
    token.literal = "let" ∧ identifier.Valid ∧ value.ValidExpression
  | result token value => token.literal = "return" ∧ value.ValidExpression
  | expression _ inner => inner.ValidExpression
  | _ => False

/-- All trees of a list are expressions. -/
def ValidExpressions : List Node → Prop
  | [] => True
  | first :: rest => first.ValidExpression ∧ ValidExpressions rest

/-- All trees of a list are statements. -/
def ValidStatements : List Node → Prop
  | [] => True
  | first :: rest => first.ValidStatement ∧ ValidStatements rest

end

/-! ## Trees up to their tokens -/

/-- The tree with one and the same token everywhere. -/
def skeleton (node : Node) : Node :=
  node.mapTokens fun _ => default

/-- The trees with one and the same token everywhere. -/
def skeletons (nodes : List Node) : List Node :=
  mapTokensAll (fun _ => default) nodes

theorem isExpression_skeleton (node : Node) : node.skeleton.isExpression = node.isExpression := by
  cases node <;> rfl

theorem separator_eq_of_skeleton {first second : Node} (h : first.skeleton = second.skeleton) :
    first.separator = second.separator := by
  have hexpression := congrArg isExpression h
  rw [isExpression_skeleton, isExpression_skeleton] at hexpression
  rw [separator, separator, hexpression]

theorem name_eq_of_skeleton {first second : Identifier} {f : Token → Token}
    (h : first.mapToken f = second.mapToken f) : first.name = second.name := by
  have hname := congrArg Identifier.name h
  exact hname

theorem renderAll_eq_of_skeleton {first second : List Identifier} {f : Token → Token}
    (h : first.map (·.mapToken f) = second.map (·.mapToken f)) :
    Identifier.renderAll first = Identifier.renderAll second := by
  have hnames := congrArg (List.map Identifier.name) h
  rw [List.map_map, List.map_map] at hnames
  exact congrArg (", ".intercalate ·) hnames

mutual

/-- Expressions that are equal but for their tokens are rendered alike. -/
theorem render_eq_of_skeleton : ∀ first second : Node, first.ValidExpression →
    second.ValidExpression → first.skeleton = second.skeleton → first.render = second.render
  | reference identifier, second, _, _, h => by
    cases second with
    | reference identifier' =>
      injection h with hidentifier
      exact name_eq_of_skeleton hidentifier
    | _ => cases h
  | integer _ value, second, _, _, h => by
    cases second with
    | integer _ value' => rw [render, render, (Node.integer.inj h).2]
    | _ => cases h
  | boolean _ value, second, _, _, h => by
    cases second with
    | boolean _ value' => rw [render, render, (Node.boolean.inj h).2]
    | _ => cases h
  | unary _ operator operand, second, hfirst, hsecond, h => by
    cases second with
    | unary _ operator' operand' =>
      obtain ⟨-, rfl, hoperand⟩ := Node.unary.inj h
      rw [render, render, render_eq_of_skeleton operand operand' hfirst.2 hsecond.2 hoperand]
    | _ => cases h
  | binary _ left operator right, second, hfirst, hsecond, h => by
    cases second with
    | binary _ left' operator' right' =>
      obtain ⟨-, hleft, rfl, hright⟩ := Node.binary.inj h
      rw [render, render, render_eq_of_skeleton left left' hfirst.2.1 hsecond.2.1 hleft,
        render_eq_of_skeleton right right' hfirst.2.2 hsecond.2.2 hright]
    | _ => cases h
  | ifThen _ condition _ body, second, hfirst, hsecond, h => by
    cases second with
    | ifThen _ condition' _ body' =>
      obtain ⟨-, hcondition, -, hbody⟩ := Node.ifThen.inj h
      rw [render, render,
        render_eq_of_skeleton condition condition' hfirst.1 hsecond.1 hcondition,
        renderStatements_eq_of_skeletons body body' hfirst.2 hsecond.2 hbody]
    | _ => cases h
  | ifThenElse _ condition _ body _ elseBody, second, hfirst, hsecond, h => by
    cases second with
    | ifThenElse _ condition' _ body' _ elseBody' =>
      obtain ⟨-, hcondition, -, hbody, -, helseBody⟩ := Node.ifThenElse.inj h
      rw [render, render,
        render_eq_of_skeleton condition condition' hfirst.1 hsecond.1 hcondition,
        renderStatements_eq_of_skeletons body body' hfirst.2.1 hsecond.2.1 hbody,
        renderStatements_eq_of_skeletons elseBody elseBody' hfirst.2.2 hsecond.2.2 helseBody]
    | _ => cases h
  | function _ parameters _ body, second, hfirst, hsecond, h => by
    cases second with
    | function _ parameters' _ body' =>
      obtain ⟨-, hparameters, -, hbody⟩ := Node.function.inj h
      rw [render, render, hfirst.1, hsecond.1, renderAll_eq_of_skeleton hparameters,
        renderStatements_eq_of_skeletons body body' hfirst.2.2 hsecond.2.2 hbody]
    | _ => cases h
  | call _ callee arguments, second, hfirst, hsecond, h => by
    cases second with
    | call _ callee' arguments' =>
      obtain ⟨-, hcallee, harguments⟩ := Node.call.inj h
      rw [render, render, render_eq_of_skeleton callee callee' hfirst.1 hsecond.1 hcallee,
        renderArguments_eq_of_skeletons arguments arguments' hfirst.2 hsecond.2 harguments]
    | _ => cases h
  | program _, _, hfirst, _, _ | binding .., _, hfirst, _, _ | result .., _, hfirst, _, _
  | expression .., _, hfirst, _, _ | block .., _, hfirst, _, _ | foreign .., _, hfirst, _, _ =>
    hfirst.elim

/-- Statements that are equal but for their tokens are rendered alike. -/
theorem renderStatement_eq_of_skeleton : ∀ first second : Node, first.ValidStatement →
    second.ValidStatement → first.skeleton = second.skeleton → first.render = second.render
  | binding _ identifier value, second, hfirst, hsecond, h => by
    cases second with
    | binding _ identifier' value' =>
      obtain ⟨-, hidentifier, hvalue⟩ := Node.binding.inj h
      rw [render, render, hfirst.1, hsecond.1, name_eq_of_skeleton hidentifier,
        render_eq_of_skeleton value value' hfirst.2.2 hsecond.2.2 hvalue]
    | _ => cases h
  | result _ value, second, hfirst, hsecond, h => by
    cases second with
    | result _ value' =>
      obtain ⟨-, hvalue⟩ := Node.result.inj h
      rw [render, render, hfirst.1, hsecond.1,
        render_eq_of_skeleton value value' hfirst.2 hsecond.2 hvalue]
    | _ => cases h
  | expression _ inner, second, hfirst, hsecond, h => by
    cases second with
    | expression _ inner' =>
      rw [render, render,
        render_eq_of_skeleton inner inner' hfirst hsecond (Node.expression.inj h).2]
    | _ => cases h
  | program _, _, hfirst, _, _ | reference _, _, hfirst, _, _ | integer .., _, hfirst, _, _
  | boolean .., _, hfirst, _, _ | unary .., _, hfirst, _, _ | binary .., _, hfirst, _, _
  | ifThen .., _, hfirst, _, _ | ifThenElse .., _, hfirst, _, _ | function .., _, hfirst, _, _
  | call .., _, hfirst, _, _ | block .., _, hfirst, _, _ | foreign .., _, hfirst, _, _ =>
    hfirst.elim

theorem renderArguments_eq_of_skeletons : ∀ first second : List Node, ValidExpressions first →
    ValidExpressions second → skeletons first = skeletons second →
    renderArguments first = renderArguments second
  | [], [], _, _, _ => rfl
  | [last], [last'], hfirst, hsecond, h =>
    render_eq_of_skeleton last last' hfirst.1 hsecond.1 (List.cons.inj h).1
  | head :: next :: rest, head' :: next' :: rest', hfirst, hsecond, h => by
    rw [renderArguments, renderArguments,
      render_eq_of_skeleton head head' hfirst.1 hsecond.1 (List.cons.inj h).1,
      renderArguments_eq_of_skeletons (next :: rest) (next' :: rest') hfirst.2 hsecond.2
        (List.cons.inj h).2]
  | [], _ :: _, _, _, h | _ :: _, [], _, _, h => by cases h
  | [_], _ :: _ :: _, _, _, h | _ :: _ :: _, [_], _, _, h => by cases (List.cons.inj h).2

/-- Lists of statements that are equal but for their tokens are rendered alike. -/
theorem renderStatements_eq_of_skeletons : ∀ first second : List Node, ValidStatements first →
    ValidStatements second → skeletons first = skeletons second →
    renderStatements first = renderStatements second
  | [], [], _, _, _ => rfl
  | [last], [last'], hfirst, hsecond, h =>
    renderStatement_eq_of_skeleton last last' hfirst.1 hsecond.1 (List.cons.inj h).1
  | head :: next :: rest, head' :: next' :: rest', hfirst, hsecond, h => by
    obtain ⟨hhead, htail⟩ := List.cons.inj h
    rw [renderStatements, renderStatements,
      renderStatement_eq_of_skeleton head head' hfirst.1 hsecond.1 hhead,
      separator_eq_of_skeleton hhead,
      renderStatements_eq_of_skeletons (next :: rest) (next' :: rest') hfirst.2 hsecond.2 htail]
  | [], _ :: _, _, _, h | _ :: _, [], _, _, h => by cases h
  | [_], _ :: _ :: _, _, _, h | _ :: _ :: _, [_], _, _, h => by cases (List.cons.inj h).2

end

end Node

end MonkeyLang
