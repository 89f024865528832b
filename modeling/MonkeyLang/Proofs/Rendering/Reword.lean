import MonkeyLang.Proofs.Rendering.Validity

/-!
# Tokens that are written out

A tree is rendered from what it is made of and not from its tokens, with three exceptions: the words
`let`, `return` and `fn` are copied from the tokens of bindings, results and functions.

* `Node.reword` changes the tokens of these three kinds of nodes, each in its own way, and leaves
  nothing of the others.
* `Rewording.gist` is the one that keeps the words, so that the tree is rendered as before
  (`Node.render_gist`).
* In a valid tree it is known what the words are.  So two valid programs that are equal but for their
  tokens have the same gist (`Node.gist_eq_of_skeletons`).
-/

set_option autoImplicit false

namespace MonkeyLang

/-! ## Changing the tokens that are written out -/

/-- A token of which nothing is known but its text. -/
def Token.spelled (literal : String) : Token :=
  { (default : Token) with literal }

@[simp] theorem Token.literal_spelled (literal : String) : (spelled literal).literal = literal := rfl

/-- What becomes of the tokens that are written out. -/
structure Rewording where
  binding : Token → Token
  result : Token → Token
  function : Token → Token

namespace Rewording

/-- The rewording of trees that have their tokens changed before. -/
def after (change : Rewording) (f : Token → Token) : Rewording :=
  ⟨change.binding ∘ f, change.result ∘ f, change.function ∘ f⟩

/-- All that counts of a token that is written out is its text. -/
def gist : Rewording :=
  ⟨fun token => .spelled token.literal, fun token => .spelled token.literal,
    fun token => .spelled token.literal⟩

/-- Every token that is written out becomes the word that it is in a valid tree. -/
def regular : Rewording :=
  ⟨fun _ => .spelled "let", fun _ => .spelled "return", fun _ => .spelled "fn"⟩

@[simp] theorem gist_binding (token : Token) : gist.binding token = .spelled token.literal := rfl
@[simp] theorem gist_result (token : Token) : gist.result token = .spelled token.literal := rfl
@[simp] theorem gist_function (token : Token) : gist.function token = .spelled token.literal := rfl
@[simp] theorem regular_binding (token : Token) : regular.binding token = .spelled "let" := rfl
@[simp] theorem regular_result (token : Token) : regular.result token = .spelled "return" := rfl
@[simp] theorem regular_function (token : Token) : regular.function token = .spelled "fn" := rfl

theorem gist_after {f : Token → Token} (h : ∀ token, (f token).literal = token.literal) :
    gist.after f = gist := by
  simp only [after, gist, Function.comp_def, h]

end Rewording

namespace Node

mutual

/-- The tree with the tokens that are written out changed, and without the others. -/
def reword (change : Rewording) : Node → Node
  | program statements => program (rewordAll change statements)
  | reference identifier => reference (identifier.mapToken fun _ => default)
  | integer _ value => integer default value
  | boolean _ value => boolean default value
  | unary _ operator operand => unary default operator (operand.reword change)
  | binary _ left operator right =>
    binary default (left.reword change) operator (right.reword change)
  | ifThen _ condition _ body =>
    ifThen default (condition.reword change) default (rewordAll change body)
  | ifThenElse _ condition _ body _ elseBody =>
    ifThenElse default (condition.reword change) default (rewordAll change body) default
      (rewordAll change elseBody)
  | function token parameters _ body =>
    function (change.function token) (parameters.map (·.mapToken fun _ => default)) default
      (rewordAll change body)
  | call _ callee arguments =>
    call default (callee.reword change) (rewordAll change arguments)
  | binding token identifier value =>
    binding (change.binding token) (identifier.mapToken fun _ => default) (value.reword change)
  | result token value => result (change.result token) (value.reword change)
  | expression _ inner => expression default (inner.reword change)
  | block _ statements => block default (rewordAll change statements)
  | foreign name literal => foreign name literal

/-- The trees with the tokens that are written out changed, and without the others. -/
def rewordAll (change : Rewording) : List Node → List Node
  | [] => []
  | first :: rest => first.reword change :: rewordAll change rest

end

mutual

theorem reword_mapTokens (change : Rewording) : ∀ (node : Node) (f : Token → Token),
    (node.mapTokens f).reword change = node.reword (change.after f)
  | program statements, f | block _ statements, f => by
    simp [mapTokens, reword, rewordAll_mapTokensAll change statements f]
  | reference _, _ | integer .., _ | boolean .., _ | foreign .., _ => rfl
  | unary _ _ operand, f => by simp [mapTokens, reword, reword_mapTokens change operand f]
  | binary _ left _ right, f => by
    simp [mapTokens, reword, reword_mapTokens change left f, reword_mapTokens change right f]
  | ifThen _ condition _ body, f => by
    simp [mapTokens, reword, reword_mapTokens change condition f,
      rewordAll_mapTokensAll change body f]
  | ifThenElse _ condition _ body _ elseBody, f => by
    simp [mapTokens, reword, reword_mapTokens change condition f,
      rewordAll_mapTokensAll change body f, rewordAll_mapTokensAll change elseBody f]
  | function _ parameters _ body, f => by
    simp [mapTokens, reword, rewordAll_mapTokensAll change body f, Rewording.after,
      Identifier.mapToken]
  | call _ callee arguments, f => by
    simp [mapTokens, reword, reword_mapTokens change callee f,
      rewordAll_mapTokensAll change arguments f]
  | binding _ _ value, f | result _ value, f | expression _ value, f => by
    simp [mapTokens, reword, reword_mapTokens change value f, Rewording.after, Identifier.mapToken]

theorem rewordAll_mapTokensAll (change : Rewording) : ∀ (nodes : List Node) (f : Token → Token),
    rewordAll change (mapTokensAll f nodes) = rewordAll (change.after f) nodes
  | [], _ => rfl
  | first :: rest, f => by
    simp [mapTokensAll, rewordAll, reword_mapTokens change first f,
      rewordAll_mapTokensAll change rest f]

end

theorem rewordAll_append (change : Rewording) (nodes others : List Node) :
    rewordAll change (nodes ++ others) = rewordAll change nodes ++ rewordAll change others := by
  induction nodes with
  | nil => rfl
  | cons first rest ih => exact congrArg (first.reword change :: ·) ih

/-! ## The text stays -/

theorem isExpression_reword (change : Rewording) (node : Node) :
    (node.reword change).isExpression = node.isExpression := by
  cases node <;> rfl

theorem renderAll_unworded (identifiers : List Identifier) :
    Identifier.renderAll (identifiers.map (·.mapToken fun _ => default)) =
      Identifier.renderAll identifiers := by
  simp [Identifier.renderAll, Identifier.mapToken, Function.comp_def]

mutual

/-- The gist of a tree is rendered as the tree is. -/
theorem render_gist : ∀ node : Node, (node.reword .gist).render = node.render
  | program statements | block _ statements => by
    simp [reword, render, renderStatements_gist statements]
  | reference _ | integer .. | boolean .. | foreign .. => rfl
  | unary _ _ operand => by simp [reword, render, render_gist operand]
  | binary _ left _ right => by simp [reword, render, render_gist left, render_gist right]
  | ifThen _ condition _ body => by
    simp [reword, render, render_gist condition, renderStatements_gist body]
  | ifThenElse _ condition _ body _ elseBody => by
    simp [reword, render, render_gist condition, renderStatements_gist body,
      renderStatements_gist elseBody]
  | function _ parameters _ body => by
    simp [reword, render, renderStatements_gist body, renderAll_unworded]
  | call _ callee arguments => by
    simp [reword, render, render_gist callee, renderArguments_gist arguments]
  | binding _ _ value | result _ value | expression _ value => by
    simp [reword, render, render_gist value, Identifier.mapToken]

theorem renderStatements_gist : ∀ statements : List Node,
    renderStatements (rewordAll .gist statements) = renderStatements statements
  | [] => rfl
  | [last] => render_gist last
  | first :: second :: rest => by
    have ih := renderStatements_gist (second :: rest)
    simp only [rewordAll, renderStatements, render_gist first, separator, isExpression_reword] at ih ⊢
    rw [ih]

theorem renderArguments_gist : ∀ arguments : List Node,
    renderArguments (rewordAll .gist arguments) = renderArguments arguments
  | [] => rfl
  | [last] => render_gist last
  | first :: second :: rest => by
    have ih := renderArguments_gist (second :: rest)
    simp only [rewordAll, renderArguments, render_gist first] at ih ⊢
    rw [ih]

end

/-! ## Valid trees -/

mutual

/-- The words of a valid tree are what they have to be. -/
theorem gist_eq_regular : ∀ node : Node, node.ValidExpression →
    node.reword .gist = node.reword .regular
  | reference _, _ | integer .., _ | boolean .., _ => rfl
  | unary _ _ operand, h => by simp [reword, gist_eq_regular operand h.2]
  | binary _ left _ right, h => by
    simp [reword, gist_eq_regular left h.2.1, gist_eq_regular right h.2.2]
  | ifThen _ condition _ body, h => by
    simp [reword, gist_eq_regular condition h.1, gistAll_eq_regular body h.2]
  | ifThenElse _ condition _ body _ elseBody, h => by
    simp [reword, gist_eq_regular condition h.1, gistAll_eq_regular body h.2.1,
      gistAll_eq_regular elseBody h.2.2]
  | function _ _ _ body, h => by
    simp [reword, gistAll_eq_regular body h.2.2, h.1]
  | call _ callee arguments, h => by
    simp [reword, gist_eq_regular callee h.1, gistArguments_eq_regular arguments h.2]
  | program _, h | binding .., h | result .., h | expression .., h | block .., h | foreign .., h =>
    h.elim

theorem gistStatement_eq_regular : ∀ node : Node, node.ValidStatement →
    node.reword .gist = node.reword .regular
  | binding _ _ value, h => by
    simp [reword, gist_eq_regular value h.2.2, h.1]
  | result _ value, h => by
    simp [reword, gist_eq_regular value h.2, h.1]
  | expression _ inner, h => by simp [reword, gist_eq_regular inner h]
  | program _, h | reference _, h | integer .., h | boolean .., h | unary .., h | binary .., h
  | ifThen .., h | ifThenElse .., h | function .., h | call .., h | block .., h | foreign .., h =>
    h.elim

theorem gistArguments_eq_regular : ∀ nodes : List Node, ValidExpressions nodes →
    rewordAll .gist nodes = rewordAll .regular nodes
  | [], _ => rfl
  | first :: rest, h => by
    simp [rewordAll, gist_eq_regular first h.1, gistArguments_eq_regular rest h.2]

theorem gistAll_eq_regular : ∀ nodes : List Node, ValidStatements nodes →
    rewordAll .gist nodes = rewordAll .regular nodes
  | [], _ => rfl
  | first :: rest, h => by
    simp [rewordAll, gistStatement_eq_regular first h.1, gistAll_eq_regular rest h.2]

end

/-- Valid programs that are equal but for their tokens have the same gist. -/
theorem gist_eq_of_skeletons {first second : List Node} (hfirst : ValidStatements first)
    (hsecond : ValidStatements second) (h : skeletons first = skeletons second) :
    (program first).reword .gist = (program second).reword .gist := by
  have hregular := congrArg (rewordAll .regular) h
  simp only [skeletons, rewordAll_mapTokensAll] at hregular
  simp only [reword, gistAll_eq_regular first hfirst, gistAll_eq_regular second hsecond]
  exact congrArg program hregular

end Node

end MonkeyLang
