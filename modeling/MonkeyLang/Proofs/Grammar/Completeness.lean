import MonkeyLang.Proofs.Grammar.Soundness

/-!
# What is derived from the grammar is read

The parser follows every derivation with settled statements: entered where the derivation begins, it
reads just its tree and no diagnostic is recorded (`Derives.follow`).  The derivation tells at each
step what the parser finds, so this is an induction on it, with a case for each production.

The grammar builds chains from the left, and so does the parser, but in its loop: where a derivation
is at an end the loop may go on with the tree.  So the statement about expressions
(`Phrase.Follows`) is that whatever comes of the loop when it goes on with the tree comes of the
expression.  There has to be no token behind the expression that its last part would take for itself
instead of the loop: an operator that binds more tightly, or the word `else` (`Fits`).

The depth of the parsers is left open, and nothing is said about a parse that is given up.
`MonkeyLang.Proofs.Parsing.Termination` has that no parse of legible tokens is.
-/

set_option autoImplicit false

namespace MonkeyLang

/-! ## Reaching a place -/

namespace TokenStream

variable {window : TokenStream} {token : Token} {rest : List Token}

theorem current_of_ahead (h : window.ahead = token :: rest) : window.current = token := by
  rw [current, h]
  rfl

theorem tail_of_ahead (h : window.ahead = token :: rest) : window.ahead.tail = rest := by
  rw [h]
  rfl

theorem upcoming_of_tail (h : window.ahead.tail = token :: rest) : window.upcoming = token := by
  rw [upcoming, h]
  rfl

/-- What holds of the tokens that come next and of the end of the text holds of the upcoming one. -/
theorem Ended.upcoming_of {p : TokenKind → Prop} (h : window.Ended) (heof : p .eof)
    (hnext : ∀ token ∈ window.ahead.tail.head?, p token.kind) : p window.upcoming.kind := by
  cases htail : window.ahead.tail with
  | nil =>
    rw [upcoming, htail]
    exact h.last.symm ▸ heof
  | cons token rest =>
    rw [upcoming_of_tail htail]
    exact hnext token (by simp [htail])

end TokenStream

namespace ParserState

/-- A later state, without further diagnostics, that has the last token of a construct for its
current one, with the rest behind it. -/
structure Reaches (before after : ParserState) (rest : List Token) : Prop where
  later : before.Later after
  silent : after.diagnostics = before.diagnostics
  rest : after.window.ahead.tail = rest

variable {first second third : ParserState} {token : Token} {rest rest' : List Token}

theorem Reaches.trans (h : first.Reaches second rest) (h' : second.Reaches third rest') :
    first.Reaches third rest' :=
  ⟨h.later.trans h'.later, h'.silent.trans h.silent, h'.rest⟩

theorem reaches_self (h : first.window.ahead.tail = rest) : first.Reaches first rest :=
  ⟨.refl first, rfl, h⟩

theorem Reaches.advance (h : first.Reaches second (token :: rest)) :
    first.Reaches second.advance rest := by
  refine ⟨h.later.trans second.later_advance, h.silent, ?_⟩
  rw [ahead_advance, h.rest]
  rfl

theorem Reaches.of_advance (h : first.advance.Reaches second rest) : first.Reaches second rest :=
  ⟨first.later_advance.trans h.later, h.silent, h.rest⟩

end ParserState

namespace Parser

open ParserState

variable {α β : Type}

/-- If the parse is not given up, the parser has a result, and the property holds of it. -/
abbrev Succeeds (parser : Parser α) (state : ParserState) (good : α → ParserState → Prop) : Prop :=
  parser.Meets state good (fun _ _ => False) (fun _ => True)

/-- Entered on the token before the input, the parser has the result and stops on the token before
the rest. -/
def Takes (parser : Parser α) (result : α) (input rest : List Token) : Prop :=
  ∀ state : ParserState, state.window.Ended → state.window.ahead.tail = input →
    parser.Succeeds state fun found after => found = result ∧ state.Reaches after rest

namespace Succeeds

variable {state : ParserState} {good : α → ParserState → Prop}

theorem mono {parser : Parser α} {good' : α → ParserState → Prop}
    (h : parser.Succeeds state good) (hgood : ∀ a t, good a t → good' a t) :
    parser.Succeeds state good' :=
  Meets.mono h hgood (fun _ _ => id) (fun _ => id)

/-- Behind a parser that succeeds, the parse ends as it ends from there. -/
theorem bind {parser : Parser α} {next : α → Parser β} {good' : β → ParserState → Prop}
    {bad : Diagnostic → ParserState → Prop} (h : parser.Succeeds state good)
    (h' : ∀ a t, good a t → (next a).Meets t good' bad fun _ => True) :
    (parser >>= next).Meets state good' bad fun _ => True :=
  meets_bind.2 (Meets.mono h h' (fun _ _ => False.elim) fun _ => id)

theorem expect {wanted : TokenKind} {next : Unit → Parser β} {token : Token} {rest : List Token}
    {good : β → ParserState → Prop} {bad : Diagnostic → ParserState → Prop}
    (htail : state.window.ahead.tail = token :: rest) (htoken : token.kind = wanted)
    (h : (next ()).Meets state.advance good bad fun _ => True) :
    (Parser.expect wanted >>= next).Meets state good bad fun _ => True := by
  have hupcoming := TokenStream.upcoming_of_tail htail
  exact meets_bind.2 (meets_expect.2 ⟨fun _ => h, fun hne => absurd (hupcoming ▸ htoken) hne⟩)

end Succeeds

end Parser

/-! ## Operators and thresholds -/

theorem Precedence.level_lt_stratum {threshold : Precedence} (h : threshold.stratum.level < 8) :
    threshold.level < threshold.stratum.level := by
  revert h
  cases threshold <;> decide

theorem Grammar.standard_opening?_of_sign {kind : TokenKind} (h : kind = .bang ∨ kind = .minus) :
    standard.opening? kind = some .unary := by
  rcases h with rfl | rfl <;> rfl

/-- An operator of a stratum binds more tightly than a threshold that lets the stratum pass. -/
theorem Precedence.lt_of_mem {threshold : Precedence} {stratum : Stratum} {kind : TokenKind}
    (hlevel : threshold.stratum.level ≤ stratum.level) (hkind : kind ∈ stratum.operators) :
    threshold < kind.precedence := by
  obtain ⟨hprecedence, -, hlow⟩ := Stratum.level_of_mem hkind
  have hthreshold := threshold.level_lt_stratum (by omega)
  show threshold.level < kind.precedence.level
  omega

/-- A call binds more tightly than the threshold of any operand. -/
theorem Precedence.lt_of_lparen {threshold : Precedence} {kind : TokenKind}
    (hthreshold : threshold.level ≤ 8) (hkind : kind = .lparen) : threshold < kind.precedence := by
  rw [hkind]
  show threshold.level < 9
  omega

theorem Stratum.standard_of_mem {stratum : Stratum} {kind : TokenKind}
    (h : kind ∈ stratum.operators) :
    Grammar.standard.continuation? kind = some .binary ∧ kind ≠ .elseWord := by
  revert h
  cases stratum <;> cases kind <;> decide

/-! ## Following derivations -/

/-- The token behind an expression is not one that a part of the expression would take. -/
def Fits (stratum : Stratum) (rest : List Token) : Prop :=
  ∀ token ∈ rest.head?, token.kind.precedence.level ≤ stratum.level ∧ token.kind ≠ .elseWord

theorem Fits.tighter {stratum : Stratum} {rest : List Token} (h : Fits stratum rest) :
    Fits stratum.tighter rest :=
  fun token htoken =>
    ⟨Nat.le_trans (h token htoken).1 stratum.level_le_tighter, (h token htoken).2⟩

/-- Parsers of any depth, entered where the phrase begins, read its tree and stop where it ends. -/
def Phrase.Follows : Phrase → List Token → List Token → Prop
  | expression stratum tree, input, rest =>
    ∀ (depth : Nat) (threshold : Precedence) (state : ParserState)
      (good : Node → ParserState → Prop) (bad : Diagnostic → ParserState → Prop),
    threshold.level ≤ 8 → threshold.stratum.level ≤ stratum.level → Fits stratum rest →
    state.window.Ended → state.window.ahead = input →
    (∀ after rounds, state.Reaches after rest →
      (Parser.climb .standard (.upTo .standard depth) threshold rounds tree).Meets after
        good bad fun _ => True) →
    (Parser.expressionWith .standard (.upTo .standard depth) threshold).Meets state
      good bad fun _ => True
  | arguments trees, input, rest =>
    ∀ depth : Nat, Parser.Takes (Parser.parenthesized (Parser.argument (.upTo .standard depth)))
      trees input rest
  | list trees, input, rest =>
    (∀ token ∈ rest.head?, token.kind = .rparen) → ∀ depth rounds : Nat,
    Parser.Takes (Parser.items (Parser.argument (.upTo .standard depth)) rounds) trees input rest
  | block brace body, input, rest =>
    ∀ (depth : Nat) (state : ParserState), state.window.Ended → state.window.ahead = input →
    (Parts.upTo .standard depth).block.Succeeds state
      fun found after => found = (brace, body) ∧ state.Reaches after rest
  | closed tree, input, rest =>
    ∀ (depth : Nat) (make : Node → Node) (state : ParserState), state.window.Ended →
    state.window.ahead = input → Closes rest →
    Parser.Succeeds (do
        let inner ← (Parts.upTo .standard depth).expression .lowest
        Parser.closeStatement
        return make inner) state
      fun found after => found = make tree ∧ state.Reaches after rest
  | statement tree, input, rest =>
    ∀ (depth : Nat) (state : ParserState), state.window.Ended → state.window.ahead = input →
    Closes rest → (Parser.statement (.upTo .standard depth)).Succeeds state
      fun found after => found = tree ∧ state.Reaches after rest
  | statements trees, input, rest =>
    ∀ (depth rounds : Nat) (closing : List TokenKind) (state : ParserState),
    (∀ kind ∈ closing, kind = .rbrace) → (∀ token ∈ rest.head?, token.kind ∈ closing) →
    state.window.Ended → state.window.ahead = input →
    (Parser.statementsWith (.upTo .standard depth) closing rounds).Succeeds state
      fun found after => found = trees ∧ state.Later after ∧
        after.diagnostics = state.diagnostics ∧ after.window.ahead = rest

namespace Parser

open ParserState

section Loop

variable {parts : Parts} {threshold : Precedence} {state after : ParserState} {left : Node}
  {good : Node → ParserState → Prop} {bad : Diagnostic → ParserState → Prop}

/-- The loop ends in front of a token that does not bind tightly enough. -/
theorem climb_stops {rest : List Token} (hreach : state.Reaches after rest)
    (hs : state.window.Ended)
    (hrest : ∀ token ∈ rest.head?, token.kind.precedence.level ≤ threshold.level)
    (hgood : good left after) :
    ∀ rounds, (climb .standard parts threshold rounds left).Succeeds after good
  | 0 => True.intro
  | rounds + 1 => by
    have hupcoming : after.window.upcoming.kind.precedence.level ≤ threshold.level :=
      (hreach.later.ended hs).upcoming_of (p := fun kind => kind.precedence.level ≤ threshold.level)
        (by cases threshold <;> decide) (hreach.rest.symm ▸ hrest)
    rw [climb, Succeeds, meets_bind, meets_upcoming, meets_ite]
    exact ⟨fun htight => absurd htight (Nat.not_lt.2 hupcoming), fun _ => hgood⟩

/-- The loop takes a token that binds more tightly than the threshold. -/
theorem climb_continues {token : Token} {middle : List Token} {kind : Continuation}
    (hreach : state.Reaches after (token :: middle))
    (hkind : Grammar.standard.continuation? token.kind = some kind)
    (htight : threshold < token.kind.precedence)
    (h : ∀ rounds, (continuation parts kind left).Meets after.advance
      (fun left' t => (climb .standard parts threshold rounds left').Meets t good bad
        fun _ => True) bad fun _ => True) :
    ∀ rounds, (climb .standard parts threshold rounds left).Meets after good bad fun _ => True
  | 0 => True.intro
  | rounds + 1 => by
    have hupcoming := TokenStream.upcoming_of_tail hreach.rest
    rw [climb, meets_bind, meets_upcoming, meets_ite, hupcoming]
    refine ⟨fun _ => ?_, fun hloose => absurd htight hloose⟩
    rw [hkind]
    simp only [meets_bind, meets_advance]
    exact h rounds

/-- An expression opens with its first token and goes on with the loop. -/
theorem expressionWith_meets {token : Token} {rest : List Token} {kind : Opening}
    (hahead : state.window.ahead = token :: rest)
    (hkind : Grammar.standard.opening? token.kind = some kind)
    (h : (opening parts kind).Meets state
      (fun left t => ∀ rounds, (climb .standard parts threshold rounds left).Meets t good bad
        fun _ => True) bad fun _ => True) :
    (expressionWith .standard parts threshold).Meets state good bad fun _ => True := by
  rw [expressionWith, meets_bind, meets_current, TokenStream.current_of_ahead hahead, hkind]
  refine meets_bind.2 (h.mono (fun left t ht => ?_) (fun _ _ => id) fun _ => id)
  rw [meets_bind, meets_remaining]
  exact ht _

end Loop

/-- An expression is read up to a token that binds no more tightly than the threshold. -/
theorem expression_follows {stratum : Stratum} {tree : Node} {input rest : List Token}
    (h : (Phrase.expression stratum tree).Follows input rest) {threshold : Precedence}
    (hthreshold : threshold.level ≤ 8) (hlevel : threshold.stratum.level ≤ stratum.level)
    (hfits : Fits stratum rest)
    (hstop : ∀ token ∈ rest.head?, token.kind.precedence.level ≤ threshold.level)
    {state : ParserState} (hs : state.window.Ended) (hahead : state.window.ahead = input) :
    ∀ depth, ((Parts.upTo .standard depth).expression threshold).Succeeds state
      fun found after => found = tree ∧ state.Reaches after rest
  | 0 => True.intro
  | depth + 1 => h depth threshold state _ _ hthreshold hlevel hfits hs hahead
    fun _ rounds hreach => climb_stops hreach hs hstop ⟨rfl, hreach⟩ rounds

/-- In parentheses, between commas, and in statements, an expression may be of any stratum. -/
theorem lowest_follows {tree : Node} {input rest : List Token}
    (h : (Phrase.expression .disjunction tree).Follows input rest)
    (hrest : ∀ token ∈ rest.head?, token.kind.precedence = .lowest ∧ token.kind ≠ .elseWord)
    {state : ParserState} (hs : state.window.Ended) (hahead : state.window.ahead = input)
    (depth : Nat) :
    ((Parts.upTo .standard depth).expression .lowest).Succeeds state
      fun found after => found = tree ∧ state.Reaches after rest := by
  refine expression_follows h (by decide) (by decide) (fun token htoken => ?_)
    (fun token htoken => ?_) hs hahead depth
  · obtain ⟨hlowest, helse⟩ := hrest token htoken
    exact ⟨by rw [hlowest]; decide, helse⟩
  · exact Nat.le_of_eq (congrArg Precedence.level (hrest token htoken).1)

end Parser

/-! ## Lists in parentheses -/

namespace Parser.Takes

open ParserState

section Lists

variable {α : Type} {item : Parser α} {a : α} {list : List α} {input middle rest : List Token}

theorem last (h : Takes item a input rest) (hrest : ∀ token ∈ rest.head?, token.kind = .rparen) :
    ∀ rounds, Takes (items item rounds) [a] input rest
  | 0, _, _, _ => True.intro
  | rounds + 1, state, hs, htail => by
    refine Succeeds.bind (h state hs htail) fun found t ht => ?_
    obtain ⟨rfl, hreach⟩ := ht
    have hcomma : t.window.upcoming.kind ≠ .comma :=
      (hreach.later.ended hs).upcoming_of (p := fun kind => kind ≠ .comma) (by decide)
        (hreach.rest.symm ▸ fun token htoken => by rw [hrest token htoken]; decide)
    rw [meets_bind, meets_upcoming, meets_ite]
    exact ⟨fun h => absurd h hcomma, fun _ => ⟨rfl, hreach⟩⟩

theorem more {comma : Token} (h : Takes item a input (comma :: middle))
    (hcomma : comma.kind = .comma) (hmore : ∀ rounds, Takes (items item rounds) list middle rest) :
    ∀ rounds, Takes (items item rounds) (a :: list) input rest
  | 0, _, _, _ => True.intro
  | rounds + 1, state, hs, htail => by
    refine Succeeds.bind (h state hs htail) fun found t ht => ?_
    obtain ⟨rfl, hreach⟩ := ht
    rw [meets_bind, meets_upcoming, meets_ite, TokenStream.upcoming_of_tail hreach.rest]
    refine ⟨fun _ => ?_, fun h => absurd hcomma h⟩
    have hreach := hreach.advance
    rw [meets_bind, meets_advance]
    refine Succeeds.bind (hmore rounds _ (hreach.later.ended hs) hreach.rest) fun found u hu => ?_
    obtain ⟨rfl, hreachMore⟩ := hu
    exact ⟨rfl, hreach.trans hreachMore⟩

theorem noItems {closes : Token} (hcloses : closes.kind = .rparen) :
    Takes (parenthesized item) [] (closes :: rest) rest := by
  intro state hs htail
  rw [parenthesized, Succeeds, meets_bind, meets_upcoming, meets_ite,
    TokenStream.upcoming_of_tail htail]
  exact ⟨fun _ => ⟨rfl, (reaches_self htail).advance⟩, fun h => absurd hcloses h⟩

theorem someItems {closes : Token} (hfirst : ∀ token ∈ input.head?, token.kind ≠ .rparen)
    (h : ∀ rounds, Takes (items item rounds) list input (closes :: rest))
    (hcloses : closes.kind = .rparen) : Takes (parenthesized item) list input rest := by
  intro state hs htail
  have hopen : state.window.upcoming.kind ≠ .rparen :=
    hs.upcoming_of (p := fun kind => kind ≠ .rparen) (by decide) (htail.symm ▸ hfirst)
  rw [parenthesized, Succeeds, meets_bind, meets_upcoming, meets_ite]
  refine ⟨fun h => absurd h hopen, fun _ => ?_⟩
  rw [meets_bind, meets_remaining]
  refine Succeeds.bind (h _ state hs htail) fun found t ht => ?_
  obtain ⟨rfl, hreach⟩ := ht
  exact Succeeds.expect hreach.rest hcloses ⟨rfl, hreach.advance⟩

end Lists

theorem name {name : Token} {rest : List Token} (hname : name.kind = .ident) :
    Takes Parser.parameter ⟨name, name.literal⟩ (name :: rest) rest := by
  intro state hs htail
  refine Succeeds.expect htail hname ?_
  have hcurrent : state.advance.window.current = name := TokenStream.upcoming_of_tail htail
  rw [Parser.name, meets_bind, meets_current, meets_pure, hcurrent]
  exact ⟨rfl, (reaches_self htail).advance⟩

theorem names {input rest : List Token} {names : List Identifier} (h : NameList input names rest)
    (hrest : ∀ token ∈ rest.head?, token.kind = .rparen) :
    ∀ rounds, Takes (items Parser.parameter rounds) names input rest := by
  induction h with
  | last hname => exact last (name hname) hrest
  | more hname hcomma _ ih => exact more (name hname) hcomma (ih hrest)

theorem parameters {input rest : List Token} {names : List Identifier}
    (h : Parameters input names rest) :
    Takes (parenthesized Parser.parameter) names input rest := by
  cases h with
  | none hcloses => exact noItems hcloses
  | some h hcloses =>
    refine someItems ?_ (Takes.names h (head?_cons hcloses)) hcloses
    cases h with
    | last hname | more hname => exact head?_cons (by simp [hname])

theorem argument {tree : Node} {input rest : List Token}
    (h : (Phrase.expression .disjunction tree).Follows input rest)
    (hrest : ∀ token ∈ rest.head?, token.kind.precedence = .lowest ∧ token.kind ≠ .elseWord)
    (depth : Nat) : Takes (Parser.argument (.upTo .standard depth)) tree input rest := by
  intro state hs htail
  rw [Parser.argument, Succeeds, meets_bind, meets_advance]
  exact (lowest_follows h hrest (state.later_advance.ended hs) htail depth).mono
    fun _ _ ht => ⟨ht.1, ht.2.of_advance⟩

end Parser.Takes

/-! ## Primary expressions -/

/-- The tokens open an expression with the tree, which ends in front of the rest. -/
def OpensWith (tree : Node) (input rest : List Token) : Prop :=
  ∃ first others kind, input = first :: others ∧
    Grammar.standard.opening? first.kind = some kind ∧
    ∀ (depth : Nat) (state : ParserState), state.window.Ended → state.window.ahead = input →
      (Parser.opening (.upTo .standard depth) kind).Succeeds state
        fun found after => found = tree ∧ state.Reaches after rest

namespace OpensWith

open MonkeyLang.Parser MonkeyLang.ParserState

theorem reference {name : Token} {rest : List Token} (hname : name.kind = .ident) :
    OpensWith (.reference ⟨name, name.literal⟩) (name :: rest) rest := by
  refine ⟨name, rest, .reference, rfl, by rw [hname]; rfl, fun depth state hs hahead => ?_⟩
  rw [Parser.opening, Parser.reference, Parser.name, Succeeds, meets_bind, meets_bind,
    meets_current, meets_pure, meets_pure, TokenStream.current_of_ahead hahead]
  exact ⟨rfl, reaches_self (TokenStream.tail_of_ahead hahead)⟩

theorem integer {token : Token} {value : Nat} {rest : List Token} (htoken : token.kind = .int)
    (hvalue : Text.numeralValue? token.literal.toList = some value)
    (hrange : value ≤ 0x7fffffffffffffff) :
    OpensWith (.integer token value) (token :: rest) rest := by
  refine ⟨token, rest, .integer, rfl, by rw [htoken]; rfl, fun depth state hs hahead => ?_⟩
  rw [Parser.opening, Parser.integer, Succeeds, meets_bind, meets_current,
    TokenStream.current_of_ahead hahead, hvalue]
  show Meets (ite _ _ _) _ _ _ _
  rw [meets_ite, meets_ite]
  exact ⟨fun _ => True.intro, fun _ => ⟨fun hlarge => absurd hrange (Nat.not_le.2 hlarge),
    fun _ => ⟨rfl, reaches_self (TokenStream.tail_of_ahead hahead)⟩⟩⟩

theorem boolean {word : Token} {value : Bool} {rest : List Token}
    (hword : word.kind = .trueWord ∧ value = true ∨ word.kind = .falseWord ∧ value = false) :
    OpensWith (.boolean word value) (word :: rest) rest := by
  have hopening : Grammar.standard.opening? word.kind = some .boolean := by
    rcases hword with ⟨hword, -⟩ | ⟨hword, -⟩ <;> rw [hword] <;> rfl
  have hvalue : value = decide (word.kind = .trueWord) := by
    rcases hword with ⟨hword, rfl⟩ | ⟨hword, rfl⟩ <;> rw [hword] <;> rfl
  refine ⟨word, rest, .boolean, rfl, hopening, fun depth state hs hahead => ?_⟩
  rw [Parser.opening, Parser.boolean, Succeeds, meets_bind, meets_current,
    TokenStream.current_of_ahead hahead, meets_pure, ← hvalue]
  exact ⟨rfl, reaches_self (TokenStream.tail_of_ahead hahead)⟩

theorem group {opens closes : Token} {tree : Node} {input rest : List Token}
    (hopens : opens.kind = .lparen)
    (h : (Phrase.expression .disjunction tree).Follows input (closes :: rest))
    (hcloses : closes.kind = .rparen) : OpensWith tree (opens :: input) rest := by
  refine ⟨opens, input, .group, rfl, by rw [hopens]; rfl, fun depth state hs hahead => ?_⟩
  rw [Parser.opening, Parser.group, Succeeds, meets_bind, meets_advance]
  refine Succeeds.bind (lowest_follows h (head?_cons (by rw [hcloses]; decide))
    (state.later_advance.ended hs) (TokenStream.tail_of_ahead hahead) depth) fun found t ht => ?_
  obtain ⟨rfl, hreach⟩ := ht
  exact Succeeds.expect hreach.rest hcloses ⟨rfl, hreach.of_advance.advance⟩

/-- A conditional up to the end of its first block. -/
theorem condition {word opens closes brace : Token} {condition : Node} {body : List Node}
    {input middle rest : List Token} (hopens : opens.kind = .lparen)
    (hcondition : (Phrase.expression .disjunction condition).Follows input (closes :: middle))
    (hcloses : closes.kind = .rparen) (hbrace : (Phrase.block brace body).Starts middle)
    (hbody : (Phrase.block brace body).Follows middle rest) {depth : Nat} {state : ParserState}
    {good : Node → ParserState → Prop} {bad : Diagnostic → ParserState → Prop}
    (hs : state.window.Ended) (hahead : state.window.ahead = word :: opens :: input)
    (h : ∀ after, state.Reaches after rest → Meets (do
        if (← Parser.upcoming).kind = .elseWord then
          Parser.advance
          Parser.expect .lbrace
          let (elseBrace, elseBody) ← (Parts.upTo .standard depth).block
          return .ifThenElse word condition brace body elseBrace elseBody
        else return .ifThen word condition brace body) after good bad fun _ => True) :
    (Parser.conditional (.upTo .standard depth)).Meets state good bad fun _ => True := by
  have htail := TokenStream.tail_of_ahead hahead
  rw [Parser.conditional, meets_bind, meets_current, TokenStream.current_of_ahead hahead]
  refine Succeeds.expect htail hopens ?_
  have hstart := (state.later_advance.trans state.advance.later_advance).ended hs
  rw [meets_bind, meets_advance]
  refine Succeeds.bind (lowest_follows hcondition (head?_cons (by rw [hcloses]; decide))
    hstart (TokenStream.tail_of_ahead htail) depth) fun found t ht => ?_
  obtain ⟨rfl, hreach⟩ := ht
  have hreach' := hreach.of_advance.of_advance.advance
  obtain ⟨others, rfl, hbrace⟩ := hbrace
  refine Succeeds.expect hreach.rest hcloses (Succeeds.expect hreach'.rest hbrace ?_)
  have hblock := (hreach'.later.trans (ParserState.later_advance _)).ended hs
  refine Succeeds.bind (hbody depth _ hblock hreach'.rest) fun found u hu => ?_
  obtain ⟨rfl, hreachBody⟩ := hu
  exact h u (hreach'.trans hreachBody.of_advance)

theorem ifThen {word opens closes brace : Token} {condition : Node} {body : List Node}
    {input middle rest : List Token} (hword : word.kind = .ifWord) (hopens : opens.kind = .lparen)
    (hcondition : (Phrase.expression .disjunction condition).Follows input (closes :: middle))
    (hcloses : closes.kind = .rparen) (hbrace : (Phrase.block brace body).Starts middle)
    (hbody : (Phrase.block brace body).Follows middle rest)
    (hrest : ∀ token ∈ rest.head?, token.kind ≠ .elseWord) :
    OpensWith (.ifThen word condition brace body) (word :: opens :: input) rest := by
  refine ⟨word, _, .conditional, rfl, by rw [hword]; rfl, fun depth state hs hahead => ?_⟩
  refine OpensWith.condition hopens hcondition hcloses hbrace hbody hs hahead
    fun after hreach => ?_
  have helse : after.window.upcoming.kind ≠ .elseWord :=
    (hreach.later.ended hs).upcoming_of (p := fun kind => kind ≠ .elseWord) (by decide)
      (hreach.rest.symm ▸ hrest)
  rw [meets_bind, meets_upcoming, meets_ite]
  exact ⟨fun h => absurd h helse, fun _ => ⟨rfl, hreach⟩⟩

theorem ifThenElse {word opens closes brace elseWord elseBrace : Token} {condition : Node}
    {body elseBody : List Node} {input middle other rest : List Token}
    (hword : word.kind = .ifWord) (hopens : opens.kind = .lparen)
    (hcondition : (Phrase.expression .disjunction condition).Follows input (closes :: middle))
    (hcloses : closes.kind = .rparen) (hbrace : (Phrase.block brace body).Starts middle)
    (hbody : (Phrase.block brace body).Follows middle (elseWord :: other))
    (helse : elseWord.kind = .elseWord) (helseBrace : (Phrase.block elseBrace elseBody).Starts other)
    (helseBody : (Phrase.block elseBrace elseBody).Follows other rest) :
    OpensWith (.ifThenElse word condition brace body elseBrace elseBody)
      (word :: opens :: input) rest := by
  refine ⟨word, _, .conditional, rfl, by rw [hword]; rfl, fun depth state hs hahead => ?_⟩
  refine OpensWith.condition hopens hcondition hcloses hbrace hbody hs hahead
    fun after hreach => ?_
  rw [meets_bind, meets_upcoming, meets_ite, TokenStream.upcoming_of_tail hreach.rest]
  refine ⟨fun _ => ?_, fun h => absurd helse h⟩
  rw [meets_bind, meets_advance]
  obtain ⟨others, rfl, helseBrace⟩ := helseBrace
  have hreach := hreach.advance
  refine Succeeds.expect hreach.rest helseBrace ?_
  have hblock := (hreach.later.trans (ParserState.later_advance _)).ended hs
  refine Succeeds.bind (helseBody depth _ hblock hreach.rest) fun found u hu => ?_
  obtain ⟨rfl, hreachBody⟩ := hu
  exact ⟨rfl, hreach.trans hreachBody.of_advance⟩

theorem function {word opens brace : Token} {names : List Identifier} {body : List Node}
    {input middle rest : List Token} (hword : word.kind = .function)
    (hopens : opens.kind = .lparen) (hnames : Parameters input names middle)
    (hbrace : (Phrase.block brace body).Starts middle)
    (hbody : (Phrase.block brace body).Follows middle rest) :
    OpensWith (.function word names brace body) (word :: opens :: input) rest := by
  refine ⟨word, _, .function, rfl, by rw [hword]; rfl, fun depth state hs hahead => ?_⟩
  have htail := TokenStream.tail_of_ahead hahead
  rw [Parser.opening, Parser.function, Succeeds, meets_bind, meets_current,
    TokenStream.current_of_ahead hahead]
  refine Succeeds.expect htail hopens ?_
  have hstart := state.later_advance.ended hs
  refine Succeeds.bind (Takes.parameters hnames _ hstart (TokenStream.tail_of_ahead htail))
    fun found t ht => ?_
  obtain ⟨rfl, hreach⟩ := ht
  have hreach := hreach.of_advance
  obtain ⟨others, rfl, hbrace⟩ := hbrace
  refine Succeeds.expect hreach.rest hbrace ?_
  have hblock := (hreach.later.trans (ParserState.later_advance _)).ended hs
  refine Succeeds.bind (hbody depth _ hblock hreach.rest) fun found u hu => ?_
  obtain ⟨rfl, hreachBody⟩ := hu
  exact ⟨rfl, hreach.trans hreachBody.of_advance⟩

/-- The loop goes on behind a primary expression. -/
theorem follows {tree : Node} {input rest : List Token} (h : OpensWith tree input rest) :
    (Phrase.expression .primary tree).Follows input rest := by
  obtain ⟨first, others, kind, rfl, hkind, hopening⟩ := h
  intro depth threshold state good bad _ _ _ hs hahead hloop
  refine expressionWith_meets hahead hkind (Meets.mono (hopening depth state hs hahead)
    (fun found t ht => ?_) (fun _ _ => False.elim) fun _ => id)
  obtain ⟨rfl, hreach⟩ := ht
  exact fun rounds => hloop t rounds hreach

end OpensWith

/-! ## Calls and operators -/

namespace Phrase.Follows

open MonkeyLang.Parser MonkeyLang.ParserState

theorem call {opens : Token} {callee : Node} {arguments : List Node}
    {input middle rest : List Token}
    (hcallee : (Phrase.expression .applied callee).Follows input (opens :: middle))
    (hopens : opens.kind = .lparen)
    (harguments : (Phrase.arguments arguments).Follows middle rest) :
    (Phrase.expression .applied (.call opens callee arguments)).Follows input rest := by
  intro depth threshold state good bad hthreshold hlevel hfits hs hahead hloop
  refine hcallee depth threshold state good bad hthreshold hlevel
    (head?_cons (by rw [hopens]; decide)) hs hahead fun after rounds hreach => ?_
  have htight := Precedence.lt_of_lparen hthreshold hopens
  refine climb_continues hreach (by rw [hopens]; rfl) htight (fun rounds => ?_) rounds
  have hcurrent : after.advance.window.current = opens := TokenStream.upcoming_of_tail hreach.rest
  have hreach := hreach.advance
  rw [Parser.continuation, Parser.call, meets_bind, meets_current, hcurrent]
  refine Succeeds.bind (harguments depth _ (hreach.later.ended hs) hreach.rest)
    fun found t ht => ?_
  obtain ⟨rfl, hreachArguments⟩ := ht
  exact hloop t rounds (hreach.trans hreachArguments)

theorem unary {sign : Token} {operand : Node} {input rest : List Token}
    (hsign : sign.kind = .bang ∨ sign.kind = .minus)
    (h : (Phrase.expression .signed operand).Follows input rest) :
    (Phrase.expression .signed (.unary sign sign.literal operand)).Follows (sign :: input) rest := by
  intro depth threshold state good bad _ _ hfits hs hahead hloop
  refine expressionWith_meets hahead (Grammar.standard_opening?_of_sign hsign) ?_
  rw [Parser.opening, Parser.unary, meets_bind, meets_current,
    TokenStream.current_of_ahead hahead, meets_bind, meets_advance]
  have hlevel : Precedence.sign.level ≤ 8 := Nat.le_refl _
  refine Succeeds.bind (expression_follows h hlevel (by decide) hfits
    (fun token htoken => (hfits token htoken).1) (state.later_advance.ended hs)
    (TokenStream.tail_of_ahead hahead) depth) fun found t ht => ?_
  obtain ⟨rfl, hreach⟩ := ht
  exact fun rounds => hloop t rounds hreach.of_advance

theorem binary {stratum : Stratum} {operator : Token} {left right : Node}
    {input middle rest : List Token}
    (hleft : (Phrase.expression stratum left).Follows input (operator :: middle))
    (hoperator : operator.kind ∈ stratum.operators)
    (hright : (Phrase.expression stratum.tighter right).Follows middle rest) :
    (Phrase.expression stratum (.binary operator left operator.literal right)).Follows
      input rest := by
  intro depth threshold state good bad hthreshold hlevel hfits hs hahead hloop
  obtain ⟨hprecedence, -, hlow⟩ := Stratum.level_of_mem hoperator
  obtain ⟨hbinary, helse⟩ := Stratum.standard_of_mem hoperator
  have htight := Precedence.lt_of_mem hlevel hoperator
  refine hleft depth threshold state good bad hthreshold hlevel
    (head?_cons ⟨Nat.le_of_eq hprecedence, helse⟩) hs hahead fun after rounds hreach => ?_
  refine climb_continues hreach hbinary htight (fun rounds => ?_) rounds
  have hcurrent : after.advance.window.current = operator :=
    TokenStream.upcoming_of_tail hreach.rest
  have hreach := hreach.advance
  rw [Parser.continuation, Parser.binary, meets_bind, meets_current, hcurrent,
    meets_bind, meets_advance]
  -- behind the right operand stands nothing that the operator itself would not leave alone
  have hstop : ∀ token ∈ rest.head?,
      token.kind.precedence.level ≤ operator.kind.precedence.level :=
    fun token htoken => hprecedence.symm ▸ (hfits token htoken).1
  have hright' := expression_follows hright (by omega : operator.kind.precedence.level ≤ 8)
    (Nat.le_of_eq (by rw [Stratum.stratum_of_mem hoperator])) (hfits.tighter) hstop
    ((hreach.later.trans (later_advance _)).ended hs) hreach.rest depth
  refine Succeeds.bind hright' fun found t ht => ?_
  obtain ⟨rfl, hreachRight⟩ := ht
  exact hloop t rounds (hreach.trans hreachRight.of_advance)

theorem ofTighter {stratum : Stratum} {tree : Node} {input rest : List Token}
    (h : (Phrase.expression stratum.tighter tree).Follows input rest) :
    (Phrase.expression stratum tree).Follows input rest := by
  intro depth threshold state good bad hthreshold hlevel hfits hs hahead hloop
  exact h depth threshold state good bad hthreshold (Nat.le_trans hlevel stratum.level_le_tighter)
    hfits.tighter hs hahead hloop

/-! ## Statements and blocks -/

theorem semicolon {mark : Token} {tree : Node} {input rest : List Token}
    (h : (Phrase.expression .disjunction tree).Follows input (mark :: rest))
    (hmark : mark.kind = .semicolon) : (Phrase.closed tree).Follows input rest := by
  intro depth make state hs hahead _
  refine Succeeds.bind (lowest_follows h (head?_cons (by rw [hmark]; decide)) hs hahead depth)
    fun found t ht => ?_
  obtain ⟨rfl, hreach⟩ := ht
  have hupcoming := TokenStream.upcoming_of_tail hreach.rest
  rw [closeStatement, meets_bind, meets_bind, meets_upcoming, meets_ite, hupcoming]
  exact ⟨fun _ => ⟨rfl, hreach.advance⟩, fun hne => absurd hmark hne⟩

theorem bare {tree : Node} {input rest : List Token}
    (h : (Phrase.expression .disjunction tree).Follows input rest)
    (hsettled : Settled input rest) : (Phrase.closed tree).Follows input rest := by
  intro depth make state hs hahead hcloses
  refine Succeeds.bind (lowest_follows h
    (fun token htoken => ⟨hsettled token htoken, (hcloses token htoken).1⟩) hs hahead depth)
    fun found t ht => ?_
  obtain ⟨rfl, hreach⟩ := ht
  have hmark : t.window.upcoming.kind ≠ .semicolon :=
    (hreach.later.ended hs).upcoming_of (p := fun kind => kind ≠ .semicolon) (by decide)
      (hreach.rest.symm ▸ fun token htoken => (hcloses token htoken).2)
  rw [closeStatement, meets_bind, meets_bind, meets_upcoming, meets_ite]
  exact ⟨fun h => absurd h hmark, fun _ => ⟨rfl, hreach⟩⟩

theorem statement {make : Node → Node} {tree : Node} {input middle rest : List Token}
    (hlead : Lead input middle make) (hstarts : (Phrase.closed tree).Starts middle)
    (h : (Phrase.closed tree).Follows middle rest) :
    (Phrase.statement (make tree)).Follows input rest := by
  intro depth state hs hahead hcloses
  cases hlead with
  | @binding word name sign _ hword hname hsign =>
    have htail := TokenStream.tail_of_ahead hahead
    have htail' : state.advance.window.ahead.tail = sign :: middle :=
      TokenStream.tail_of_ahead htail
    have hcurrent : state.advance.window.current = name := TokenStream.upcoming_of_tail htail
    rw [Parser.statement, Succeeds, meets_bind, meets_current,
      TokenStream.current_of_ahead hahead, hword]
    rw [Parser.binding, meets_bind, meets_current, TokenStream.current_of_ahead hahead]
    refine Succeeds.expect htail hname ?_
    rw [Parser.name, meets_bind, meets_bind, meets_current, meets_pure, hcurrent]
    refine Succeeds.expect htail' hsign ?_
    rw [meets_bind, meets_advance]
    have hstart := state.later_advance.trans
      (state.advance.later_advance.trans state.advance.advance.later_advance)
    exact (h depth _ _ (hstart.ended hs) (TokenStream.tail_of_ahead htail') hcloses).mono
      fun _ _ ht => ⟨ht.1, ht.2.of_advance.of_advance.of_advance⟩
  | result hword =>
    rw [Parser.statement, Succeeds, meets_bind, meets_current,
      TokenStream.current_of_ahead hahead, hword]
    rw [Parser.result, meets_bind, meets_current, TokenStream.current_of_ahead hahead, meets_bind,
      meets_advance]
    exact (h depth _ _ (state.later_advance.ended hs) (TokenStream.tail_of_ahead hahead)
      hcloses).mono fun _ _ ht => ⟨ht.1, ht.2.of_advance⟩
  | @expression first _ =>
    have hfirst : first.kind.startsExpression = true := by
      obtain ⟨_, _, ⟨⟩, hfirst⟩ := hstarts
      exact hfirst
    rw [Parser.statement, Succeeds, meets_bind, meets_current,
      TokenStream.current_of_ahead hahead]
    split
    · rename_i hword
      rw [hword] at hfirst
      cases hfirst
    · rename_i hword
      rw [hword] at hfirst
      cases hfirst
    · rw [Parser.expressionStatement, meets_bind, meets_current,
        TokenStream.current_of_ahead hahead]
      exact h depth _ state hs hahead hcloses

theorem noStatements {rest : List Token} : (Phrase.statements []).Follows rest rest := by
  intro depth rounds closing state _ hrest hs hahead
  cases rounds with
  | zero => exact True.intro
  | succ rounds =>
    have hstop : state.window.current.kind = .eof ∨ state.window.current.kind ∈ closing := by
      cases rest with
      | nil =>
        rw [TokenStream.current, hahead]
        exact .inl hs.last
      | cons token rest =>
        rw [TokenStream.current_of_ahead hahead]
        exact .inr (hrest token rfl)
    rw [statementsWith, Succeeds, meets_bind, meets_current, meets_ite]
    refine ⟨fun _ => ⟨rfl, .refl state, rfl, hahead⟩, fun hopen => absurd hstop ?_⟩
    simpa only [Bool.or_eq_true, decide_eq_true_eq] using hopen

theorem someStatements {first : Node} {others : List Node} {input middle rest : List Token}
    (hstarts : (Phrase.statement first).Starts input)
    (hfirst : (Phrase.statement first).Follows input middle)
    (hmiddle : EndsList rest → Closes middle)
    (hothers : (Phrase.statements others).Follows middle rest) :
    (Phrase.statements (first :: others)).Follows input rest := by
  intro depth rounds closing state hclosing hrest hs hahead
  cases rounds with
  | zero => exact True.intro
  | succ rounds =>
    obtain ⟨token, tokens, rfl, htoken⟩ := hstarts
    have hopen : ¬(token.kind = .eof ∨ token.kind ∈ closing) := by
      rintro (heof | hmem)
      · rw [heof] at htoken
        revert htoken
        decide
      · rw [hclosing _ hmem] at htoken
        revert htoken
        decide
    rw [statementsWith, Succeeds, meets_bind, meets_current,
      TokenStream.current_of_ahead hahead, meets_ite]
    refine ⟨fun hstop => absurd ?_ hopen, fun _ => ?_⟩
    · simpa only [Bool.or_eq_true, decide_eq_true_eq] using hstop
    have hcloses := hmiddle fun token htoken => hclosing _ (hrest token htoken)
    rw [meets_bind, meets_attempt]
    refine Meets.mono (hfirst depth state hs hahead hcloses) (fun found t ht => ?_)
      (fun _ _ => False.elim) (fun _ => id)
    obtain ⟨rfl, hreach⟩ := ht
    rw [meets_bind, meets_advance]
    have hlater := hreach.later.trans t.later_advance
    refine Succeeds.bind (hothers depth rounds closing _ hclosing hrest (hlater.ended hs)
      hreach.rest) fun found u hu => ?_
    obtain ⟨rfl, hlater', hsilent, hrest'⟩ := hu
    exact ⟨rfl, hlater.trans hlater', hsilent.trans hreach.silent, hrest'⟩

theorem block {brace : Token} {body : List Node} {input behind rest : List Token}
    (hbehind : (∃ closes : Token, closes.kind = .rbrace ∧ behind = closes :: rest) ∨
      behind = [] ∧ rest = [])
    (hbody : (Phrase.statements body).Follows input behind) :
    (Phrase.block brace body).Follows (brace :: input) rest := by
  intro depth state hs hahead
  cases depth with
  | zero => exact True.intro
  | succ depth =>
    have hcloses : ∀ token ∈ behind.head?, token.kind ∈ [TokenKind.rbrace] := by
      rcases hbehind with ⟨closes, hcloses, rfl⟩ | ⟨rfl, -⟩
      · exact head?_cons (List.mem_singleton.2 hcloses)
      · exact fun token htoken => by cases htoken
    have htail : behind.tail = rest := by
      rcases hbehind with ⟨closes, -, rfl⟩ | ⟨rfl, rfl⟩ <;> rfl
    show Succeeds (blockWith (.upTo .standard depth)) state _
    rw [blockWith, Succeeds, meets_bind, meets_current, TokenStream.current_of_ahead hahead,
      meets_bind, meets_advance, meets_bind, meets_remaining]
    refine Succeeds.bind (hbody depth _ [.rbrace] _ (fun _ => List.mem_singleton.1) hcloses
      (state.later_advance.ended hs) (TokenStream.tail_of_ahead hahead)) fun found t ht => ?_
    obtain ⟨rfl, hlater, hsilent, hrest⟩ := ht
    exact ⟨rfl, state.later_advance.trans hlater, hsilent, by rw [hrest, htail]⟩

end Phrase.Follows

/-! ## All derivations -/

/-- **The parser follows every derivation with settled statements.** -/
theorem Derives.follow {phrase : Phrase} {input rest : List Token}
    (h : Derives Settled phrase input rest) : phrase.Follows input rest := by
  induction h with
  | reference hname => exact (OpensWith.reference hname).follows
  | integer htoken hvalue hrange => exact (OpensWith.integer htoken hvalue hrange).follows
  | trueWord hword => exact (OpensWith.boolean (.inl ⟨hword, rfl⟩)).follows
  | falseWord hword => exact (OpensWith.boolean (.inr ⟨hword, rfl⟩)).follows
  | group hopens _ hcloses ih => exact (OpensWith.group hopens ih hcloses).follows
  | ifThen hword hopens _ hcloses hbody ih ih' =>
    intro depth threshold state good bad hthreshold hlevel hfits
    exact (OpensWith.ifThen hword hopens ih hcloses hbody.starts ih'
      fun token htoken => (hfits token htoken).2).follows depth threshold state good bad
        hthreshold hlevel hfits
  | ifThenElse hword hopens _ hcloses hbody helse helseBody ih ih' ih'' =>
    exact (OpensWith.ifThenElse hword hopens ih hcloses hbody.starts ih' helse helseBody.starts
      ih'').follows
  | function hword hopens hnames hbody ih =>
    exact (OpensWith.function hword hopens hnames hbody.starts ih).follows
  | call _ hopens _ ih ih' => exact .call ih hopens ih'
  | unary hsign _ ih => exact .unary hsign ih
  | binary _ hoperator _ ih ih' => exact .binary ih hoperator ih'
  | ofTighter _ ih => exact .ofTighter ih
  | noArguments hcloses => exact fun _ => Parser.Takes.noItems hcloses
  | someArguments h hcloses ih =>
    refine fun depth => Parser.Takes.someItems ?_ (ih (head?_cons hcloses) depth) hcloses
    obtain ⟨first, tokens, rfl, hfirst⟩ := h.starts
    refine head?_cons fun hkind => ?_
    rw [hkind] at hfirst
    cases hfirst
  | last _ ih =>
    intro hrest depth
    refine Parser.Takes.last (Parser.Takes.argument ih (fun token htoken => ?_) depth) hrest
    rw [hrest token htoken]
    decide
  | more _ hcomma _ ih ih' =>
    intro hrest depth
    exact Parser.Takes.more (Parser.Takes.argument ih (head?_cons (by rw [hcomma]; decide)) depth) hcomma
      (ih' hrest depth)
  | block _ _ hcloses ih => exact .block (.inl ⟨_, hcloses, rfl⟩) ih
  | endedBlock _ _ ih => exact .block (.inr ⟨rfl, rfl⟩) ih
  | semicolon _ _ hmark ih => exact .semicolon ih hmark
  | bare _ hlimit ih => exact .bare ih hlimit
  | statement hlead h ih => exact .statement hlead h.starts ih
  | noStatements => exact .noStatements
  | someStatements hfirst hothers ih ih' =>
    exact .someStatements hfirst.starts ih hothers.closes ih'

end MonkeyLang
