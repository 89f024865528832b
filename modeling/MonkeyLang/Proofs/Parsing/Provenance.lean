import MonkeyLang.Proofs.Parsing.Recovery
import MonkeyLang.Proofs.Parsing.Termination
import MonkeyLang.Proofs.Scanning.Places

/-!
# The nodes of a tree are made of the tokens of the text, in order

Each node keeps the token that it was read from, and some keep data that this token has told: a name, a
value, an operator.  `Node.entries` lists the kept tokens of a tree in the order in which the tree is read,
each with what the tree has kept besides it.

The tokens are picked up at different moments, some of them before the parts of a construct are read and
some after.  Still the list comes in the order of the text, whatever was dropped in front of a construct or
inside of it: what is read so far is made of tokens that are consumed, and what is read next is not.
`Traced` is this invariant, and every parser keeps it (`Parser.program_traces`).

`entries_of_parse` is the statement about a source text, malformed or not.
-/

set_option autoImplicit false

namespace MonkeyLang

/-! ## The tokens of a tree -/

/-- What a tree keeps besides a token. -/
inductive Role where
  | name (text : String)
  | integer (value : Int)
  | truth (value : Bool)
  | operator (text : String)
  /-- Nothing: it is a token that a construct is told by, which is always of one kind. -/
  | mark (kind : TokenKind)
  /-- Nothing: it is the first token of an expression standing as a statement. -/
  | first
  deriving DecidableEq, Repr

/-- A token that a tree keeps, and what it keeps besides. -/
structure Entry where
  token : Token
  role : Role
  deriving DecidableEq, Repr

/-- What is kept besides a token is what the token says. -/
def Entry.Fits (entry : Entry) : Prop :=
  match entry.role with
  | .name text => entry.token.kind = .ident ∧ text = entry.token.literal
  | .integer value => entry.token.kind = .int ∧
      value = (Nat.ofDigitChars 10 entry.token.literal.toList 0 : Nat)
  | .truth value => (entry.token.kind = .trueWord ∧ value = true) ∨
      (entry.token.kind = .falseWord ∧ value = false)
  | .operator text => text = entry.token.literal
  | .mark kind => entry.token.kind = kind
  | .first => True

def Identifier.entry (identifier : Identifier) : Entry :=
  ⟨identifier.token, .name identifier.name⟩

/-- The entries of an expression standing as a statement, from its own token and the entries of the
expression.  Mostly the expression starts with the same token, which counts once then. -/
def Entry.lead (token : Token) : List Entry → List Entry
  | [] => [⟨token, .first⟩]
  | head :: rest => if head.token = token then head :: rest else ⟨token, .first⟩ :: head :: rest

namespace Node

mutual

/-- The tokens that a tree keeps, in the order in which the tree is read. -/
def entries : Node → List Entry
  | program statements => entriesAll statements
  | reference identifier => [identifier.entry]
  | integer token value => [⟨token, .integer value⟩]
  | boolean token value => [⟨token, .truth value⟩]
  | unary token operator operand => ⟨token, .operator operator⟩ :: operand.entries
  | binary token left operator right => left.entries ++ ⟨token, .operator operator⟩ :: right.entries
  | ifThen token condition brace body =>
    ⟨token, .mark .ifWord⟩ :: (condition.entries ++ ⟨brace, .mark .lbrace⟩ :: entriesAll body)
  | ifThenElse token condition brace body elseBrace elseBody =>
    ⟨token, .mark .ifWord⟩ :: (condition.entries ++ ⟨brace, .mark .lbrace⟩ :: (entriesAll body ++
      ⟨elseBrace, .mark .lbrace⟩ :: entriesAll elseBody))
  | function token parameters brace body =>
    ⟨token, .mark .function⟩ :: (parameters.map Identifier.entry ++
      ⟨brace, .mark .lbrace⟩ :: entriesAll body)
  | call token callee arguments => callee.entries ++ ⟨token, .mark .lparen⟩ :: entriesAll arguments
  | binding token identifier value =>
    ⟨token, .mark .letWord⟩ :: identifier.entry :: value.entries
  | result token value => ⟨token, .mark .returnWord⟩ :: value.entries
  | expression token inner => Entry.lead token inner.entries
  | block brace statements => ⟨brace, .mark .lbrace⟩ :: entriesAll statements
  | foreign .. => []

/-- The tokens that some trees keep, in the order in which the trees are read. -/
def entriesAll : List Node → List Entry
  | [] => []
  | first :: rest => first.entries ++ entriesAll rest

end

theorem entriesAll_eq_flatMap (nodes : List Node) : entriesAll nodes = nodes.flatMap entries := by
  induction nodes with
  | nil => rfl
  | cons first rest ih => rw [entriesAll, List.flatMap_cons, ih]

end Node

/-! ## Keeping to the order -/

/-- The entries say what their tokens say, and the tokens come in the order of the input, with the rest of
the input behind them. -/
structure Traced (input : List Token) (entries : List Entry) (rest : List Token) : Prop where
  tokens : (entries.map Entry.token ++ rest).Sublist input
  fits : ∀ entry ∈ entries, entry.Fits

namespace Traced

variable {input input' middle middle' rest rest' : List Token} {entries entries' : List Entry}

theorem nil (h : rest.Sublist input) : Traced input [] rest :=
  ⟨h, List.forall_mem_nil _⟩

/-- More tokens may be in front. -/
theorem widen (h : Traced input entries rest) (hinput : input.Sublist input') :
    Traced input' entries rest :=
  ⟨h.tokens.trans hinput, h.fits⟩

/-- Some tokens behind may be dropped. -/
theorem drop (h : Traced input entries rest) (hrest : rest'.Sublist rest) : Traced input entries rest' :=
  ⟨((List.Sublist.refl _).append hrest).trans h.tokens, h.fits⟩

theorem append (h : Traced input entries middle) (h' : Traced middle' entries' rest)
    (hgap : middle'.Sublist middle) : Traced input (entries ++ entries') rest where
  tokens := by
    rw [List.map_append, List.append_assoc]
    exact ((List.Sublist.refl _).append (h'.tokens.trans hgap)).trans h.tokens
  fits := List.forall_mem_append.2 ⟨h.fits, h'.fits⟩

theorem cons {entry : Entry} (hfits : entry.Fits) (h : Traced input entries rest) :
    Traced (entry.token :: input) (entry :: entries) rest :=
  ⟨h.tokens.cons_cons _, List.forall_mem_cons.2 ⟨hfits, h.fits⟩⟩

/-- The first token of an expression standing as a statement is in order, too. -/
theorem lead {token : Token} (h : Traced (token :: input) entries rest) (hrest : rest.Sublist input) :
    Traced (token :: input) (Entry.lead token entries) rest := by
  have hfirst : Entry.Fits ⟨token, .first⟩ := True.intro
  unfold Entry.lead
  split
  · exact cons hfirst (nil hrest)
  · rename_i head others
    split
    · exact h
    · -- the expression starts with another token, so it starts behind this one
      rename_i hother
      refine cons hfirst ⟨?_, h.fits⟩
      rcases List.sublist_cons_iff.1 h.tokens with hbehind | ⟨others', hsame, -⟩
      · exact hbehind
      · exact absurd (List.cons.inj hsame).1 hother

end Traced

namespace ParserState

variable {state : ParserState} {entries : List Entry} {rest : List Token}

/-- The current token, in front of what is read behind it. -/
theorem Scanned.traced_current (hs : state.Scanned) (hkind : state.window.current.kind ≠ .eof) {role : Role}
    (hfits : Entry.Fits ⟨state.window.current, role⟩)
    (h : Traced state.window.ahead.tail entries rest) :
    Traced state.window.ahead (⟨state.window.current, role⟩ :: entries) rest := by
  rw [TokenStream.ahead_eq_cons hs.last hkind]
  exact h.cons hfits

end ParserState

namespace Parser

variable {α β : Type} {state : ParserState} {parts : Parts} {input input' : List Token}

/-- If the parser has a result, its entries are made of tokens of the input, in front of what is left behind
the current token; and the tokens behind it are scanned ones. -/
abbrev Traces (parser : Parser α) (state : ParserState) (input : List Token)
    (entries : α → List Entry) : Prop :=
  parser.Gives state fun a after => after.Scanned ∧ Traced input (entries a) after.window.ahead.tail

theorem Traces.bind {parser : Parser α} {next : α → Parser β} {entries : α → List Entry}
    {entries' : β → List Entry} (h : parser.Traces state input entries)
    (h' : ∀ a after, after.Scanned → Traced input (entries a) after.window.ahead.tail →
      (next a).Traces after input' entries') :
    (parser >>= next).Traces state input' entries' :=
  Gives.bind h fun a after hafter => h' a after hafter.1 hafter.2

/-- The parsers for the parts of a construct keep to the order of the tokens. -/
structure PartsTrace (parts : Parts) : Prop where
  forward : parts.Forward .any fun _ => True
  expression : ∀ (threshold : Precedence) (state : ParserState), state.Scanned →
    (parts.expression threshold).Traces state state.window.ahead Node.entries
  block : ∀ state : ParserState, state.Scanned → state.window.current.kind = .lbrace →
    parts.block.Traces state state.window.ahead fun found => (Node.block found.1 found.2).entries

/-! ## Lists -/

theorem items_traces {item : Parser α} {entries : α → List Entry}
    (hitem : ∀ state : ParserState, state.Scanned → item.Traces state state.window.ahead.tail entries) :
    ∀ (rounds : Nat) (state : ParserState), state.Scanned →
    (items item rounds).Traces state state.window.ahead.tail fun list => list.flatMap entries
  | 0, _, _ => True.intro
  | rounds + 1, state, hs => by
    rw [items]
    refine Traces.bind (hitem state hs) fun first t ht hfirst => ?_
    rw [Traces, Gives, meets_bind, meets_upcoming, meets_ite, meets_bind, meets_advance]
    refine ⟨fun _ => ?_, fun _ => ⟨ht, by simpa using hfirst⟩⟩
    exact Traces.bind (items_traces hitem rounds _ ht.advance) fun rest u hu hrest =>
      ⟨hu, hfirst.append hrest (List.tail_sublist _)⟩

theorem parenthesized_traces {item : Parser α} {entries : α → List Entry}
    (hitem : ∀ state : ParserState, state.Scanned → item.Traces state state.window.ahead.tail entries)
    (hs : state.Scanned) :
    (parenthesized item).Traces state state.window.ahead.tail fun list => list.flatMap entries := by
  rw [parenthesized, Traces, Gives, meets_bind, meets_upcoming, meets_ite]
  refine ⟨fun _ => ⟨hs.advance, .nil (List.tail_sublist _)⟩, fun _ => ?_⟩
  rw [meets_bind, meets_remaining]
  exact Traces.bind (items_traces hitem _ state hs) fun list t ht hlist =>
    Gives.expect fun _ => ⟨ht.advance, hlist.drop (List.tail_sublist _)⟩

theorem name_traces (hs : state.Scanned) (hkind : state.window.current.kind = .ident) :
    name.Traces state state.window.ahead fun identifier => [identifier.entry] :=
  ⟨hs, hs.traced_current (by simp [hkind]) ⟨hkind, rfl⟩ (.nil (List.Sublist.refl _))⟩

theorem parameter_traces (hs : state.Scanned) :
    parameter.Traces state state.window.ahead.tail fun identifier => [identifier.entry] :=
  Gives.expect fun hkind => name_traces hs.advance hkind

section Constructs

variable (hs : state.Scanned)
include hs

/-! ## Constructs that open an expression -/

theorem integer_traces (hkind : state.window.current.kind = .int) :
    integer.Traces state state.window.ahead Node.entries := by
  have hne : state.window.current.kind ≠ .eof := by simp [hkind]
  obtain ⟨hdigit, hdigits⟩ := (hs.current hne).integer hkind
  rw [Traces, Gives, integer, meets_bind, meets_current]
  split
  · exact True.intro
  · rename_i value hvalue
    rw [meets_ite, meets_ite]
    refine ⟨fun _ => True.intro, fun _ => ⟨fun _ => True.intro, fun _ => ⟨hs, ?_⟩⟩⟩
    rw [Text.numeralValue?_of_digits hdigit hdigits] at hvalue
    have hdecimal := congrArg Int.ofNat (Option.some.inj hvalue).symm
    exact hs.traced_current hne ⟨hkind, hdecimal⟩ (.nil (List.Sublist.refl _))

theorem boolean_traces
    (hkind : state.window.current.kind = .trueWord ∨ state.window.current.kind = .falseWord) :
    boolean.Traces state state.window.ahead Node.entries := by
  refine ⟨hs, ?_⟩
  rcases hkind with hkind | hkind
  · exact hs.traced_current (by simp [hkind]) (.inl ⟨hkind, by simp [hkind]⟩) (.nil (List.Sublist.refl _))
  · exact hs.traced_current (by simp [hkind]) (.inr ⟨hkind, by simp [hkind]⟩) (.nil (List.Sublist.refl _))

variable (h : PartsTrace parts)
include h

theorem argument_traces : (argument parts).Traces state state.window.ahead.tail Node.entries :=
  h.expression .lowest _ hs.advance

theorem unary_traces (hkind : state.window.current.kind ≠ .eof) :
    (unary parts).Traces state state.window.ahead Node.entries := by
  rw [unary, Traces, Gives, meets_bind, meets_current, meets_bind, meets_advance]
  exact Traces.bind (h.expression .sign _ hs.advance) fun operand t ht hoperand =>
    ⟨ht, hs.traced_current hkind rfl hoperand⟩

theorem group_traces : (group parts).Traces state state.window.ahead Node.entries := by
  rw [group, Traces, Gives, meets_bind, meets_advance]
  exact Traces.bind (h.expression .lowest _ hs.advance) fun inner t ht hinner =>
    Gives.expect fun _ =>
      ⟨ht.advance, (hinner.widen (List.tail_sublist _)).drop (List.tail_sublist _)⟩

theorem conditional_traces (hkind : state.window.current.kind = .ifWord) :
    (conditional parts).Traces state state.window.ahead Node.entries := by
  have hne : state.window.current.kind ≠ .eof := by simp [hkind]
  rw [conditional, Traces, Gives, meets_bind, meets_current]
  refine Gives.expect fun _ => ?_
  rw [Gives, meets_bind, meets_advance]
  refine Traces.bind (h.expression .lowest _ hs.advance.advance) fun condition t ht hcondition =>
    Gives.expect fun _ => Gives.expect fun hbrace => ?_
  refine Traces.bind (h.block _ ht.advance.advance hbrace) fun found u hu hbody => ?_
  have hfirst := (hcondition.append hbody (List.tail_sublist _)).widen (List.tail_sublist _)
  rw [Traces, Gives, meets_bind, meets_upcoming, meets_ite, meets_bind, meets_advance]
  refine ⟨fun _ => Gives.expect fun hbrace' => ?_, fun _ => ⟨hu, hs.traced_current hne hkind hfirst⟩⟩
  refine Traces.bind (h.block _ hu.advance.advance hbrace') fun other v hv helseBody => ⟨hv, ?_⟩
  have hboth := hfirst.append helseBody (List.tail_sublist _)
  rw [List.append_assoc] at hboth
  exact hs.traced_current hne hkind hboth

theorem function_traces (hkind : state.window.current.kind = .function) :
    (function parts).Traces state state.window.ahead Node.entries := by
  rw [function, Traces, Gives, meets_bind, meets_current]
  refine Gives.expect fun _ => ?_
  refine Traces.bind (parenthesized_traces (fun _ => parameter_traces) hs.advance)
    fun parameters t ht hparameters => Gives.expect fun hbrace => ?_
  refine Traces.bind (h.block _ ht.advance hbrace) fun found u hu hbody => ⟨hu, ?_⟩
  have hrest := (hparameters.append hbody (List.Sublist.refl _)).widen (List.tail_sublist _)
  rw [← List.map_eq_flatMap] at hrest
  exact hs.traced_current (by simp [hkind]) hkind hrest

theorem opening_traces {kind : Opening}
    (hkind : Grammar.standard.opening? state.window.current.kind = some kind) :
    (opening parts kind).Traces state state.window.ahead Node.entries := by
  have hkind := Grammar.standard_opening? hkind
  cases kind with
  | reference => exact Traces.bind (name_traces hs hkind) fun _ _ ht hname => ⟨ht, hname⟩
  | integer => exact integer_traces hs hkind
  | boolean => exact boolean_traces hs hkind
  | unary => exact unary_traces hs h (by rcases hkind with hkind | hkind <;> simp [hkind])
  | group => exact group_traces hs h
  | conditional => exact conditional_traces hs h hkind
  | function => exact function_traces hs h hkind

/-! ## Constructs that continue an expression -/

theorem continuation_traces {kind : Continuation} {left : Node}
    (hkind : Grammar.standard.continuation? state.window.current.kind = some kind)
    (hleft : Traced input left.entries state.window.ahead) :
    (continuation parts kind left).Traces state input Node.entries := by
  have hne : state.window.current.kind ≠ .eof := by
    intro heof
    rw [heof] at hkind
    cases hkind
  have hkind := Grammar.standard_continuation? hkind
  cases kind with
  | binary =>
    rw [continuation, binary, Traces, Gives, meets_bind, meets_current, meets_bind, meets_advance]
    exact Traces.bind (h.expression _ _ hs.advance) fun right t ht hright =>
      ⟨ht, hleft.append (hs.traced_current hne rfl hright) (List.Sublist.refl _)⟩
  | call =>
    rw [continuation, call, Traces, Gives, meets_bind, meets_current]
    refine Traces.bind (parenthesized_traces (fun _ hs => argument_traces hs h) hs)
      fun arguments t ht harguments => ⟨ht, ?_⟩
    rw [← Node.entriesAll_eq_flatMap] at harguments
    exact hleft.append (hs.traced_current hne hkind harguments) (List.Sublist.refl _)

end Constructs

/-! ## Expressions -/

/-- What is read so far stays in front of what it is continued with. -/
theorem climb_traces (h : PartsTrace parts) (threshold : Precedence) :
    ∀ (rounds : Nat) (left : Node) (state : ParserState), state.Scanned →
    Traced input left.entries state.window.ahead.tail →
    (climb .standard parts threshold rounds left).Traces state input Node.entries
  | 0, _, _, _, _ => True.intro
  | rounds + 1, left, state, hs, hleft => by
    rw [climb, Traces, Gives, meets_bind, meets_upcoming, meets_ite]
    refine ⟨fun _ => ?_, fun _ => ⟨hs, hleft⟩⟩
    split
    · exact ⟨hs, hleft⟩
    · rename_i kind hkind
      rw [meets_bind, meets_advance]
      exact Traces.bind (continuation_traces hs.advance h hkind hleft)
        fun left' t ht hleft' => climb_traces h threshold rounds left' t ht hleft'

theorem expressionWith_traces (h : PartsTrace parts) (threshold : Precedence) (hs : state.Scanned) :
    (expressionWith .standard parts threshold).Traces state state.window.ahead Node.entries := by
  rw [expressionWith, Traces, Gives, meets_bind, meets_current]
  split
  · exact True.intro
  · rename_i kind hkind
    refine Traces.bind (opening_traces hs h hkind) fun left t ht hleft => ?_
    rw [Traces, Gives, meets_bind, meets_remaining]
    exact climb_traces h threshold _ left t ht hleft

/-! ## Statements -/

theorem closeStatement_traces (hs : state.Scanned) {entries : List Entry}
    (h : Traced input entries state.window.ahead.tail) :
    closeStatement.Traces state input fun _ => entries := by
  rw [closeStatement, Traces, Gives, meets_bind, meets_upcoming, meets_ite]
  exact ⟨fun _ => ⟨hs.advance, h.drop (List.tail_sublist _)⟩, fun _ => ⟨hs, h⟩⟩

/-- The expression of a statement, with the semicolon behind it, makes the statement. -/
theorem closed_traces (h : PartsTrace parts) {make : Node → Node}
    (hmake : ∀ inner rest, Traced state.window.ahead inner.entries rest →
      rest.Sublist state.window.ahead.tail → Traced input (make inner).entries rest)
    (hs : state.Scanned) :
    Traces (do
        let inner ← parts.expression .lowest
        closeStatement
        return make inner) state input Node.entries := by
  have hforward := (h.forward.expression .lowest).gives state
  refine meets_bind.2 (((h.expression .lowest _ hs).and hforward).mono (fun inner t ht => ?_)
    (fun _ _ _ => True.intro) fun _ _ => True.intro)
  have hmade := hmake inner _ ht.1.2 ht.2.ahead.sublist.tail
  exact Traces.bind (closeStatement_traces ht.1.1 hmade) fun _ _ hu hclosed => ⟨hu, hclosed⟩

theorem statement_traces (h : PartsTrace parts) (hs : state.Scanned)
    (hkind : state.window.current.kind ≠ .eof) :
    (statement parts).Traces state state.window.ahead Node.entries := by
  rw [statement, Traces, Gives, meets_bind, meets_current]
  split
  · rename_i hword
    rw [binding, meets_bind, meets_current]
    refine Gives.expect fun hname => ?_
    refine Traces.bind (name_traces hs.advance hname) fun identifier t ht hidentifier =>
      Gives.expect fun _ => ?_
    rw [Gives, meets_bind, meets_advance]
    refine closed_traces h (fun inner rest hinner _ => ?_) ht.advance.advance
    exact hs.traced_current hkind hword (hidentifier.append hinner (List.tail_sublist _))
  · rename_i hword
    rw [result, meets_bind, meets_current, meets_bind, meets_advance]
    exact closed_traces h (fun inner rest hinner _ => hs.traced_current hkind hword hinner) hs.advance
  · rw [expressionStatement, meets_bind, meets_current]
    refine closed_traces h (fun inner rest hinner hrest => ?_) hs
    rw [TokenStream.ahead_eq_cons hs.last hkind] at hinner ⊢
    exact hinner.lead hrest

/-- What is skipped behind a malformed statement is in no tree, and what is read behind it stands behind it
in the text. -/
theorem statementsWith_traces (h : PartsTrace parts) (closing : List TokenKind) :
    ∀ (rounds : Nat) (state : ParserState), state.Scanned →
    (statementsWith parts closing rounds).Gives state fun trees after => after.Scanned ∧
      Traced state.window.ahead (Node.entriesAll trees) after.window.ahead
  | 0, _, _ => True.intro
  | rounds + 1, state, hs => by
    rw [statementsWith, Gives, meets_bind, meets_current, meets_ite]
    refine ⟨fun _ => ⟨hs, .nil (List.Sublist.refl _)⟩, fun hopen => ?_⟩
    have hkind : state.window.current.kind ≠ .eof := fun heof => hopen (by simp [heof])
    rw [meets_bind, meets_attempt]
    have hforward := Forward.statement h.forward state True.intro
    refine ((statement_traces h hs hkind).and hforward).mono (fun first t ht => ?_) (fun d t ht => ?_)
      fun _ _ => True.intro
    · rw [meets_bind, meets_advance]
      exact Gives.bind (statementsWith_traces h closing rounds _ ht.1.1.advance)
        fun rest u hu => ⟨hu.1, ht.1.2.append hu.2 (List.Sublist.refl _)⟩
    · have hlater := (ht.2.trans (t.later_record d)).trans (ParserState.later_skip _ closing)
      have hskip := hs.later hlater
      rw [meets_bind, meets_skipTo, meets_bind, meets_current, meets_ite, meets_bind, meets_advance]
      refine ⟨fun _ => ⟨hskip, .nil hlater.ahead.sublist⟩, fun _ => ?_⟩
      exact Gives.mono (statementsWith_traces h closing rounds _ hskip.advance) fun rest u hu =>
        ⟨hu.1, hu.2.widen ((List.tail_sublist _).trans hlater.ahead.sublist)⟩

theorem blockWith_traces (h : PartsTrace parts) (hs : state.Scanned)
    (hkind : state.window.current.kind = .lbrace) :
    (blockWith parts).Traces state state.window.ahead fun found =>
      (Node.block found.1 found.2).entries := by
  rw [blockWith, Traces, Gives, meets_bind, meets_current, meets_bind, meets_advance, meets_bind,
    meets_remaining]
  exact Gives.bind (statementsWith_traces h _ _ _ hs.advance) fun _ _ ht =>
    ⟨ht.1, hs.traced_current (by simp [hkind]) hkind (ht.2.drop (List.tail_sublist _))⟩

theorem trace_upTo : ∀ depth, PartsTrace (.upTo .standard depth)
  | 0 =>
    { forward := forward_upTo _ 0
      expression := fun _ _ _ => True.intro
      block := fun _ _ _ => True.intro }
  | depth + 1 =>
    { forward := forward_upTo _ (depth + 1)
      expression := fun threshold _ hs => expressionWith_traces (trace_upTo depth) threshold hs
      block := fun _ hs hkind => blockWith_traces (trace_upTo depth) hs hkind }

/-- **What is read off scanned tokens is made of them, in order.** -/
theorem program_traces (hs : state.Scanned) :
    (program .standard).Gives state fun trees after =>
      Traced state.window.ahead (Node.entriesAll trees) after.window.ahead := by
  rw [program, withParts, Gives, meets_bind, meets_remaining, meets_bind, meets_remaining]
  exact Gives.mono (statementsWith_traces (trace_upTo _) [] _ _ hs) fun _ _ ht => ht.2

end Parser

/-! ## Source texts -/

/-- **Trees are made of source tokens in order.**  Whatever is wrong with a source text, the tokens that its
program keeps, in reading order, are among the scanned tokens, in their order and with their places, so no
token is kept twice; each stands behind the one before it; and what the program keeps besides is what the
tokens say. -/
theorem entries_of_parse {source : String} {parsed : Parsed} (h : parse source = .ok parsed) :
    (parsed.program.entries.map Entry.token).Sublist (Token.scan source.toList) ∧
      (parsed.program.entries.map (·.token.place)).Pairwise (· < ·) ∧
      ∀ entry ∈ parsed.program.entries, entry.Fits := by
  let start : ParserState := { window := .ofSource source }
  have hs : start.Scanned := ParserState.scanned_ofSource source
  have htraced : Traced start.window.ahead parsed.program.entries [] := by
    rw [Parsed.program, Node.entries]
    rcases (Parser.program_traces hs).of_parsed h with ⟨_, htraced⟩ | hnone
    · exact htraced.drop (List.nil_sublist _)
    · rw [hnone]
      exact .nil (List.nil_sublist _)
  have htokens := htraced.tokens
  rw [List.append_nil] at htokens
  refine ⟨htokens, ?_, htraced.fits⟩
  have hplaces := (Token.pairwise_scan source.toList).sublist htokens
  rw [List.pairwise_map] at hplaces ⊢
  exact hplaces

/-- A binding without a name is dropped, and a brace that nothing opens.  Between them a call stands as a
statement, whose first token is no token of the call. -/
theorem entries_of_parse_recovered :
    let callee : Token := ⟨.ident, "a", ⟨1, 11⟩⟩
    let opens : Token := ⟨.lparen, "(", ⟨1, 13⟩⟩
    let argument : Token := ⟨.int, "02", ⟨1, 14⟩⟩
    let parsed : Parsed :=
      ⟨[.expression ⟨.lparen, "(", ⟨1, 10⟩⟩ (.call opens (.reference ⟨callee, "a"⟩) [.integer argument 2])],
        [⟨.expected .ident .assign, ⟨1, 5⟩⟩, ⟨.noOpening .rbrace, ⟨1, 18⟩⟩]⟩
    parse "let = 1; (a)(02) \x7d" = .ok parsed ∧
      (parsed.program.entries.map Entry.token).Sublist (Token.scan "let = 1; (a)(02) \x7d".toList) ∧
      (parsed.program.entries.map (·.token.place)).Pairwise (· < ·) ∧
      parsed.program.entries = [⟨⟨.lparen, "(", ⟨1, 10⟩⟩, .first⟩, ⟨callee, .name "a"⟩,
        ⟨opens, .mark .lparen⟩, ⟨argument, .integer 2⟩] ∧
      ∀ entry ∈ parsed.program.entries, entry.Fits := by
  intro callee opens argument parsed
  have hparse : parse "let = 1; (a)(02) \x7d" = .ok parsed := rfl
  obtain ⟨htokens, hplaces, hfits⟩ := entries_of_parse hparse
  exact ⟨hparse, htokens, hplaces, rfl, hfits⟩

end MonkeyLang
