import MonkeyLang.Proofs.Grammar.Soundness
import MonkeyLang.Proofs.Rendering.Validity
import MonkeyLang.Proofs.Scanning.Lexemes

/-!
# Whatever is recovered from a text is valid

A malformed statement is dropped, and what is read behind it may start in the middle of a construct.
Still every tree that is read, whatever is wrong with the text, is a valid one: names are words that
are not reserved, integers are in range, and statements and expressions are in their places
(`Parser.program_yields`).  All that it takes is that the text is scanned, so that the kind of a
token tells its text.
-/

set_option autoImplicit false

namespace MonkeyLang

/-! ## Scanned tokens -/

namespace Token.Proper

variable {token : Token}

/-- An identifier is a valid name. -/
theorem validName (h : token.Proper) (hkind : token.kind = .ident) :
    Identifier.Valid ⟨token, token.literal⟩ := by
  obtain ⟨hne, hletters, hword⟩ := h.word (by rw [hkind]; rfl)
  exact ⟨hne, hletters, TokenKind.ofWord_eq_ident_iff.1 (hword.trans hkind)⟩

/-- The text of a reserved word is told by its kind. -/
theorem literal_eq (h : token.Proper) (word : String) (hword : word ∈ reservedWords)
    (hkind : token.kind = .ofWord word) : token.literal = word := by
  have hisWord : token.kind.isWord = true := by
    rw [hkind]
    exact isWord_ofWord word
  exact TokenKind.ofWord_inj hword ((h.word hisWord).2.2.trans hkind)

/-- The text of a sign or an operator is told by its kind. -/
theorem literal_mem (h : token.Proper) {texts : List String}
    (hkind : ∃ text ∈ token.kind.symbol?, text ∈ texts) : token.literal ∈ texts := by
  obtain ⟨text, htext, hmem⟩ := hkind
  rw [h.symbol text htext]
  exact hmem

end Token.Proper

theorem TokenKind.symbol?_of_unary {kind : TokenKind} (h : kind = .bang ∨ kind = .minus) :
    ∃ text ∈ kind.symbol?, text ∈ unaryOperators := by
  rcases h with rfl | rfl
  · exact ⟨"!", rfl, by decide⟩
  · exact ⟨"-", rfl, by decide⟩

theorem TokenKind.symbol?_of_binary {kind : TokenKind} {stratum : Stratum}
    (h : kind ∈ stratum.operators) : ∃ text ∈ kind.symbol?, text ∈ binaryOperators := by
  have hsymbol : ∀ kind ∈ stratum.operators, ∀ text ∈ kind.symbol?, text ∈ binaryOperators := by
    cases stratum <;> decide
  have hsome : ∀ kind ∈ stratum.operators, kind.symbol?.isSome = true := by
    cases stratum <;> decide
  obtain ⟨text, htext⟩ := Option.isSome_iff_exists.1 (hsome kind h)
  exact ⟨text, htext, hsymbol kind h text htext⟩

namespace ParserState

/-- The tokens that are left are scanned ones. -/
structure Scanned (state : ParserState) : Prop where
  last : state.window.last.kind = .eof
  ahead : ∀ token ∈ state.window.ahead, token.Proper

variable {state after : ParserState}

/-- So are those of a text that is not begun. -/
theorem scanned_ofSource (source : String) : Scanned { window := .ofSource source } :=
  ⟨rfl, fun _ htoken => Token.proper_of_mem_scanFrom htoken⟩

theorem Scanned.later (h : state.Scanned) (hlater : state.Later after) : after.Scanned :=
  ⟨hlater.last ▸ h.last, fun token htoken => h.ahead token (hlater.ahead.subset htoken)⟩

theorem Scanned.advance (h : state.Scanned) : state.advance.Scanned :=
  h.later state.later_advance

theorem Scanned.current (h : state.Scanned) (hkind : state.window.current.kind ≠ .eof) :
    state.window.current.Proper :=
  h.ahead _ (TokenStream.current_mem (TokenStream.ahead_ne_nil h.last hkind))

end ParserState

namespace Node

theorem validExpressions_iff {trees : List Node} :
    ValidExpressions trees ↔ ∀ tree ∈ trees, tree.ValidExpression := by
  induction trees with
  | nil => simp [ValidExpressions]
  | cons first rest ih => simp [ValidExpressions, ih]

end Node

namespace Parser

variable {α β : Type} {state : ParserState} {parts : Parts}

/-! ## What is read off scanned tokens -/

/-- If the parser has a result, the property holds of it, and the tokens behind it are scanned
ones. -/
abbrev Yields (parser : Parser α) (state : ParserState) (good : α → Prop) : Prop :=
  parser.Gives state fun a after => after.Scanned ∧ good a

theorem Yields.bind {parser : Parser α} {next : α → Parser β} {good : α → Prop} {good' : β → Prop}
    (h : parser.Yields state good)
    (h' : ∀ a after, after.Scanned → good a → (next a).Yields after good') :
    (parser >>= next).Yields state good' :=
  Gives.bind h fun a after hafter => h' a after hafter.1 hafter.2

/-- The parsers for the parts of a construct read valid trees. -/
structure PartsYield (parts : Parts) : Prop where
  forward : parts.Forward .any fun _ => True
  expression : ∀ (threshold : Precedence) (state : ParserState), state.Scanned →
    (parts.expression threshold).Yields state Node.ValidExpression
  block : ∀ state : ParserState, state.Scanned →
    parts.block.Yields state fun found => Node.ValidStatements found.2

theorem items_yields {item : Parser α} {good : α → Prop}
    (hitem : ∀ state : ParserState, state.Scanned → item.Yields state good) :
    ∀ (rounds : Nat) (state : ParserState), state.Scanned →
    (items item rounds).Yields state fun list => ∀ a ∈ list, good a
  | 0, _, _ => True.intro
  | rounds + 1, state, hs => by
    rw [items]
    refine Yields.bind (hitem state hs) fun first t ht hfirst => ?_
    rw [Yields, Gives, meets_bind, meets_upcoming, meets_ite, meets_bind, meets_advance]
    refine ⟨fun _ => ?_, fun _ => ⟨ht, List.forall_mem_singleton.2 hfirst⟩⟩
    exact Yields.bind (items_yields hitem rounds _ ht.advance) fun rest u hu hrest =>
      ⟨hu, List.forall_mem_cons.2 ⟨hfirst, hrest⟩⟩

theorem parenthesized_yields {item : Parser α} {good : α → Prop}
    (hitem : ∀ state : ParserState, state.Scanned → item.Yields state good) (hs : state.Scanned) :
    (parenthesized item).Yields state fun list => ∀ a ∈ list, good a := by
  rw [parenthesized, Yields, Gives, meets_bind, meets_upcoming, meets_ite]
  refine ⟨fun _ => ⟨hs.advance, by rintro _ ⟨⟩⟩, fun _ => ?_⟩
  rw [meets_bind, meets_remaining]
  exact Yields.bind (items_yields hitem _ state hs) fun list t ht hlist =>
    Gives.expect fun _ => ⟨ht.advance, hlist⟩

theorem name_yields (hs : state.Scanned) (hkind : state.window.current.kind = .ident) :
    name.Yields state Identifier.Valid :=
  ⟨hs, (hs.current (by simp [hkind])).validName hkind⟩

theorem parameter_yields (hs : state.Scanned) : parameter.Yields state Identifier.Valid :=
  Gives.expect fun hkind => name_yields hs.advance hkind

section Constructs

variable (hs : state.Scanned)
include hs

theorem integer_yields : integer.Yields state Node.ValidExpression := by
  rw [Yields, Gives, integer, meets_bind, meets_current]
  split
  · exact True.intro
  · rename_i value hvalue
    rw [meets_ite, meets_ite]
    refine ⟨fun _ => True.intro, fun _ => ⟨fun _ => True.intro, fun hrange => ?_⟩⟩
    exact ⟨hs, Int.natCast_nonneg value, Int.ofNat_le.2 (Nat.not_lt.1 hrange)⟩

variable (h : PartsYield parts)
include h

theorem argument_yields : (argument parts).Yields state Node.ValidExpression :=
  h.expression .lowest _ hs.advance

theorem unary_yields
    (hkind : state.window.current.kind = .bang ∨ state.window.current.kind = .minus) :
    (unary parts).Yields state Node.ValidExpression := by
  have hproper : state.window.current.Proper :=
    hs.current (by rcases hkind with hkind | hkind <;> rw [hkind] <;> decide)
  rw [unary, Yields, Gives, meets_bind, meets_current, meets_bind, meets_advance]
  exact Yields.bind (h.expression .sign _ hs.advance) fun operand t ht hoperand =>
    ⟨ht, hproper.literal_mem (TokenKind.symbol?_of_unary hkind), hoperand⟩

theorem group_yields : (group parts).Yields state Node.ValidExpression := by
  rw [group, Yields, Gives, meets_bind, meets_advance]
  exact Yields.bind (h.expression .lowest _ hs.advance) fun inner t ht hinner =>
    Gives.expect fun _ => ⟨ht.advance, hinner⟩

theorem conditional_yields : (conditional parts).Yields state Node.ValidExpression := by
  rw [conditional, Yields, Gives, meets_bind, meets_current]
  refine Gives.expect fun _ => ?_
  rw [Gives, meets_bind, meets_advance]
  refine Yields.bind (h.expression .lowest _ hs.advance.advance) fun condition t ht hcondition =>
    Gives.expect fun _ => Gives.expect fun _ => ?_
  refine Yields.bind (h.block _ ht.advance.advance) fun found u hu hbody => ?_
  rw [Yields, Gives, meets_bind, meets_upcoming, meets_ite, meets_bind, meets_advance]
  refine ⟨fun _ => Gives.expect fun _ => ?_, fun _ => ⟨hu, hcondition, hbody⟩⟩
  exact Yields.bind (h.block _ hu.advance.advance) fun other v hv helseBody =>
    ⟨hv, hcondition, hbody, helseBody⟩

theorem function_yields (hkind : state.window.current.kind = .function) :
    (function parts).Yields state Node.ValidExpression := by
  have hproper := hs.current (by simp [hkind])
  rw [function, Yields, Gives, meets_bind, meets_current]
  refine Gives.expect fun _ => ?_
  refine Yields.bind (parenthesized_yields (fun _ => parameter_yields) hs.advance)
    fun parameters t ht hparameters => Gives.expect fun _ => ?_
  exact Yields.bind (h.block _ ht.advance) fun found u hu hbody =>
    ⟨hu, hproper.literal_eq "fn" (by decide) hkind, hparameters, hbody⟩

theorem opening_yields {kind : Opening}
    (hkind : Grammar.standard.opening? state.window.current.kind = some kind) :
    (opening parts kind).Yields state Node.ValidExpression := by
  have hkind := Grammar.standard_opening? hkind
  cases kind with
  | reference => exact Yields.bind (name_yields hs hkind) fun _ _ ht hname => ⟨ht, hname⟩
  | integer => exact integer_yields hs
  | boolean => exact ⟨hs, True.intro⟩
  | unary => exact unary_yields hs h hkind
  | group => exact group_yields hs h
  | conditional => exact conditional_yields hs h
  | function => exact function_yields hs h hkind

theorem continuation_yields {kind : Continuation} {left : Node}
    (hkind : Grammar.standard.continuation? state.window.current.kind = some kind)
    (hleft : left.ValidExpression) :
    (continuation parts kind left).Yields state Node.ValidExpression := by
  have hkind := Grammar.standard_continuation? hkind
  cases kind with
  | binary =>
    obtain ⟨stratum, hoperator⟩ := hkind
    have hproper : state.window.current.Proper := by
      refine hs.current fun heof => ?_
      rw [heof] at hoperator
      revert hoperator
      cases stratum <;> decide
    rw [continuation, binary, Yields, Gives, meets_bind, meets_current, meets_bind, meets_advance]
    exact Yields.bind (h.expression _ _ hs.advance) fun right t ht hright =>
      ⟨ht, hproper.literal_mem (TokenKind.symbol?_of_binary hoperator), hleft, hright⟩
  | call =>
    rw [continuation, call, Yields, Gives, meets_bind, meets_current]
    exact Yields.bind (parenthesized_yields (fun _ hs => argument_yields hs h) hs)
      fun arguments t ht harguments => ⟨ht, hleft, Node.validExpressions_iff.2 harguments⟩

end Constructs

/-! ## Expressions and statements -/

theorem climb_yields (h : PartsYield parts) (threshold : Precedence) :
    ∀ (rounds : Nat) (left : Node) (state : ParserState), state.Scanned → left.ValidExpression →
    (climb .standard parts threshold rounds left).Yields state Node.ValidExpression
  | 0, _, _, _, _ => True.intro
  | rounds + 1, left, state, hs, hleft => by
    rw [climb, Yields, Gives, meets_bind, meets_upcoming, meets_ite]
    refine ⟨fun _ => ?_, fun _ => ⟨hs, hleft⟩⟩
    split
    · exact ⟨hs, hleft⟩
    · rename_i kind hkind
      rw [meets_bind, meets_advance]
      exact Yields.bind (continuation_yields hs.advance h hkind hleft)
        fun left' t ht hleft' => climb_yields h threshold rounds left' t ht hleft'

theorem expressionWith_yields (h : PartsYield parts) (threshold : Precedence)
    (hs : state.Scanned) :
    (expressionWith .standard parts threshold).Yields state Node.ValidExpression := by
  rw [expressionWith, Yields, Gives, meets_bind, meets_current]
  split
  · exact True.intro
  · rename_i kind hkind
    refine Yields.bind (opening_yields hs h hkind) fun left t ht hleft => ?_
    rw [Yields, Gives, meets_bind, meets_remaining]
    exact climb_yields h threshold _ left t ht hleft

theorem closeStatement_yields (hs : state.Scanned) :
    closeStatement.Yields state fun _ => True := by
  rw [closeStatement, Yields, Gives, meets_bind, meets_upcoming, meets_ite]
  exact ⟨fun _ => ⟨hs.advance, True.intro⟩, fun _ => ⟨hs, True.intro⟩⟩

/-- The expression of a statement, with the semicolon behind it, makes the statement. -/
theorem closed_yields (h : PartsYield parts) {make : Node → Node}
    (hmake : ∀ inner, inner.ValidExpression → (make inner).ValidStatement) (hs : state.Scanned) :
    Yields (do
        let inner ← parts.expression .lowest
        closeStatement
        return make inner) state Node.ValidStatement :=
  Yields.bind (h.expression .lowest _ hs) fun inner _ ht hinner =>
    Yields.bind (closeStatement_yields ht) fun _ _ hu _ => ⟨hu, hmake inner hinner⟩

theorem statement_yields (h : PartsYield parts) (hs : state.Scanned) :
    (statement parts).Yields state Node.ValidStatement := by
  rw [statement, Yields, Gives, meets_bind, meets_current]
  split
  · rename_i hword
    have hlet := (hs.current (by simp [hword])).literal_eq "let" (by decide) hword
    rw [binding, meets_bind, meets_current]
    refine Gives.expect fun hname => ?_
    refine Yields.bind (name_yields hs.advance hname) fun identifier t ht hidentifier =>
      Gives.expect fun _ => ?_
    rw [Gives, meets_bind, meets_advance]
    exact closed_yields h (fun inner hinner => ⟨hlet, hidentifier, hinner⟩) ht.advance.advance
  · rename_i hword
    have hreturn := (hs.current (by simp [hword])).literal_eq "return" (by decide) hword
    rw [result, meets_bind, meets_current, meets_bind, meets_advance]
    exact closed_yields h (fun inner hinner => ⟨hreturn, hinner⟩) hs.advance
  · rw [expressionStatement, meets_bind, meets_current]
    exact closed_yields h (fun inner hinner => hinner) hs

/-- What is read behind malformed statements is valid, too. -/
theorem statementsWith_yields (h : PartsYield parts) (closing : List TokenKind) :
    ∀ (rounds : Nat) (state : ParserState), state.Scanned →
    (statementsWith parts closing rounds).Yields state Node.ValidStatements
  | 0, _, _ => True.intro
  | rounds + 1, state, hs => by
    rw [statementsWith, Yields, Gives, meets_bind, meets_current, meets_ite]
    refine ⟨fun _ => ⟨hs, True.intro⟩, fun _ => ?_⟩
    rw [meets_bind, meets_attempt]
    have hforward := Forward.statement h.forward state True.intro
    refine ((statement_yields h hs).and hforward).mono (fun first t ht => ?_) (fun d t ht => ?_)
      fun _ _ => True.intro
    · rw [meets_bind, meets_advance]
      exact Yields.bind (statementsWith_yields h closing rounds _ ht.1.1.advance)
        fun rest u hu hrest => ⟨hu, ht.1.2, hrest⟩
    · have hskip := hs.later ((ht.2.trans (t.later_record d)).trans
        (ParserState.later_skip _ closing))
      rw [meets_bind, meets_skipTo, meets_bind, meets_current, meets_ite, meets_bind, meets_advance]
      exact ⟨fun _ => ⟨hskip, True.intro⟩,
        fun _ => statementsWith_yields h closing rounds _ hskip.advance⟩

theorem blockWith_yields (h : PartsYield parts) (hs : state.Scanned) :
    (blockWith parts).Yields state fun found => Node.ValidStatements found.2 := by
  rw [blockWith, Yields, Gives, meets_bind, meets_current, meets_bind, meets_advance, meets_bind,
    meets_remaining]
  exact Yields.bind (statementsWith_yields h _ _ _ hs.advance) fun _ _ ht hbody => ⟨ht, hbody⟩

theorem yields_upTo : ∀ depth, PartsYield (.upTo .standard depth)
  | 0 =>
    { forward := forward_upTo _ 0
      expression := fun _ _ _ => True.intro
      block := fun _ _ => True.intro }
  | depth + 1 =>
    { forward := forward_upTo _ (depth + 1)
      expression := fun threshold _ hs => expressionWith_yields (yields_upTo depth) threshold hs
      block := fun _ hs => blockWith_yields (yields_upTo depth) hs }

/-- **Whatever is read off scanned tokens is valid**, and what is read behind a malformed statement
is no exception. -/
theorem program_yields (hs : state.Scanned) :
    (program .standard).Yields state Node.ValidStatements := by
  rw [program, withParts, Yields, Gives, meets_bind, meets_remaining, meets_bind, meets_remaining]
  exact statementsWith_yields (yields_upTo _) [] _ _ hs

end Parser

/-- The program that is recovered from a text is valid. -/
theorem valid_of_parse {source : String} {parsed : Parsed} (h : parse source = .ok parsed) :
    Node.ValidStatements parsed.statements := by
  rcases (Parser.program_yields (ParserState.scanned_ofSource source)).of_parsed h with ⟨_, -, hvalid⟩ | hnone
  · exact hvalid
  · rw [hnone]
    exact True.intro

end MonkeyLang
