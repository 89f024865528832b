import MonkeyLang.Proofs.Parsing.Concatenation

/-!
# A journal of the statements

Statements are parsed at the top of a text and in blocks, which stand in expressions, which stand in
statements again.  Whether a statement that stands somewhere inside is well formed cannot be told from
the outcome of the one around it: a block goes on behind a malformed statement, and a malformed
construct takes well-formed statements with it.

Here parsing is defined a second time, keeping a *journal*.  Two things are entered in it: the fault
that a parser stops with, at the moment when it is noticed, however deep inside; and each call of the
parser of statements at its end, with what it returned.  The second parser differs from the first in
nothing else (`Journaled.Accounts`).

So a parser might notice a fault that goes on no record, or on record twice; or a statement might be
dropped without a fault.  None of this happens: the faults that were noticed, the diagnostics of the
text, and the calls that returned no statement are the same, one by one (`parse_accounts`).  Hence
whoever refuses a text with diagnostics accepts it exactly if no statement was dropped at any depth.
-/

set_option autoImplicit false

namespace MonkeyLang

/-! ## Journals -/

/-- What a call of the parser of statements comes to: it returns a statement, or the statement is
dropped, for a reason that its diagnostic says. -/
inductive StatementCall where
  | returned (statement : Node)
  | dropped (diagnostic : Diagnostic)

/-- The diagnostic of a call that returns no statement. -/
def StatementCall.diagnostic? : StatementCall → Option Diagnostic
  | returned _ => none
  | dropped diagnostic => some diagnostic

/-- Whether a call returns no statement. -/
def StatementCall.isDropped (call : StatementCall) : Bool :=
  call.diagnostic?.isSome

/-- The diagnostics of the calls that return no statement. -/
def diagnosticsOf (calls : List StatementCall) : List Diagnostic :=
  calls.filterMap StatementCall.diagnostic?

theorem diagnosticsOf_returned (calls : List StatementCall) (statement : Node) :
    diagnosticsOf (calls ++ [.returned statement]) = diagnosticsOf calls := by
  simp [diagnosticsOf, StatementCall.diagnostic?]

theorem diagnosticsOf_dropped (calls : List StatementCall) (diagnostic : Diagnostic) :
    diagnosticsOf (calls ++ [.dropped diagnostic]) = diagnosticsOf calls ++ [diagnostic] := by
  simp [diagnosticsOf, StatementCall.diagnostic?]

/-- Where a parser stands, and what happened so far, the oldest first. -/
structure Journal where
  state : ParserState
  /-- The faults that were noticed. -/
  noticed : List Diagnostic := []
  /-- The calls of the parser of statements that came to an end. -/
  calls : List StatementCall := []

/-- A parser that keeps a journal. -/
abbrev Journaled (α : Type) : Type :=
  EStateM Stop Journal α

/-- The parsers for the parts of a construct, with a journal. -/
structure JournaledParts where
  expression : Precedence → Journaled Node
  block : Journaled (Token × List Node)

namespace Journaled

variable {α : Type}

/-- A parser that calls the parser of statements nowhere.  If it stops with a fault, this is where the
fault is noticed. -/
def lift (parser : Parser α) : Journaled α := fun journal =>
  match parser journal.state with
  | .ok a state => .ok a { journal with state }
  | .error (.malformed diagnostic) state =>
    .error (.malformed diagnostic) { journal with state, noticed := journal.noticed ++ [diagnostic] }
  | .error (.abort cause) state => .error (.abort cause) { journal with state }

/-- Calls the parser of statements.  The call goes into the journal when it comes to its end. -/
def attempt (statement : Journaled Node) : Journaled (Option Node) := fun journal =>
  match statement journal with
  | .ok tree after => .ok (some tree) { after with calls := after.calls ++ [.returned tree] }
  | .error (.malformed diagnostic) after =>
    .ok none { after with
      state := after.state.record diagnostic, calls := after.calls ++ [.dropped diagnostic] }
  | .error (.abort cause) after => .error (.abort cause) after

/-! ## Parsing with a journal -/

/-- One or more items parted by commas. -/
def items (item : Journaled α) : Nat → Journaled (List α)
  | 0 => lift (Parser.giveUp .endless)
  | rounds + 1 => do
    let first ← item
    if (← lift Parser.upcoming).kind = .comma then
      lift Parser.advance
      return first :: (← items item rounds)
    else return [first]

/-- A list of items in parentheses. -/
def parenthesized (item : Journaled α) : Journaled (List α) := do
  if (← lift Parser.upcoming).kind = .rparen then
    lift Parser.advance
    return []
  else
    let found ← items item ((← lift Parser.remaining) + 1)
    lift (Parser.expect .rparen)
    return found

/-- An argument of a call. -/
def argument (parts : JournaledParts) : Journaled Node := do
  lift Parser.advance
  parts.expression .lowest

/-- An operator and its operand. -/
def unary (parts : JournaledParts) : Journaled Node := do
  let token ← lift Parser.current
  lift Parser.advance
  let operand ← parts.expression .sign
  return .unary token token.literal operand

/-- An expression in parentheses. -/
def group (parts : JournaledParts) : Journaled Node := do
  lift Parser.advance
  let inner ← parts.expression .lowest
  lift (Parser.expect .rparen)
  return inner

/-- A conditional. -/
def conditional (parts : JournaledParts) : Journaled Node := do
  let token ← lift Parser.current
  lift (Parser.expect .lparen)
  lift Parser.advance
  let condition ← parts.expression .lowest
  lift (Parser.expect .rparen)
  lift (Parser.expect .lbrace)
  let (brace, body) ← parts.block
  if (← lift Parser.upcoming).kind = .elseWord then
    lift Parser.advance
    lift (Parser.expect .lbrace)
    let (elseBrace, elseBody) ← parts.block
    return .ifThenElse token condition brace body elseBrace elseBody
  else return .ifThen token condition brace body

/-- A function literal. -/
def function (parts : JournaledParts) : Journaled Node := do
  let token ← lift Parser.current
  lift (Parser.expect .lparen)
  let parameters ← parenthesized (lift Parser.parameter)
  lift (Parser.expect .lbrace)
  let (brace, body) ← parts.block
  return .function token parameters brace body

/-- The construct that an expression opens with. -/
def opening (parts : JournaledParts) : Opening → Journaled Node
  | .reference => lift Parser.reference
  | .integer => lift Parser.integer
  | .boolean => lift Parser.boolean
  | .unary => unary parts
  | .group => group parts
  | .conditional => conditional parts
  | .function => function parts

/-- An operator and its right operand. -/
def binary (parts : JournaledParts) (left : Node) : Journaled Node := do
  let token ← lift Parser.current
  lift Parser.advance
  let right ← parts.expression token.kind.precedence
  return .binary token left token.literal right

/-- The arguments of a call. -/
def call (parts : JournaledParts) (callee : Node) : Journaled Node := do
  let token ← lift Parser.current
  let arguments ← parenthesized (argument parts)
  return .call token callee arguments

/-- The construct that an expression is continued with. -/
def continuation (parts : JournaledParts) : Continuation → Node → Journaled Node
  | .binary => binary parts
  | .call => call parts

/-- Continues an expression as long as the upcoming token binds more tightly than the threshold. -/
def climb (grammar : Grammar) (parts : JournaledParts) (threshold : Precedence) :
    Nat → Node → Journaled Node
  | 0, _ => lift (Parser.giveUp .endless)
  | rounds + 1, left => do
    let token ← lift Parser.upcoming
    if threshold < token.kind.precedence then
      match grammar.continuation? token.kind with
      | none => return left
      | some kind =>
        lift Parser.advance
        climb grammar parts threshold rounds (← continuation parts kind left)
    else return left

/-- An expression whose operators all bind more tightly than the threshold. -/
def expressionWith (grammar : Grammar) (parts : JournaledParts) (threshold : Precedence) :
    Journaled Node := do
  let token ← lift Parser.current
  match grammar.opening? token.kind with
  | none => lift (Parser.fail (.noOpening token.kind) token)
  | some kind =>
    let left ← opening parts kind
    climb grammar parts threshold ((← lift Parser.remaining) + 1) left

/-- The statement that binds a name. -/
def binding (parts : JournaledParts) : Journaled Node := do
  let token ← lift Parser.current
  lift (Parser.expect .ident)
  let identifier ← lift Parser.name
  lift (Parser.expect .assign)
  lift Parser.advance
  let value ← parts.expression .lowest
  lift Parser.closeStatement
  return .binding token identifier value

/-- The statement that gives a result. -/
def result (parts : JournaledParts) : Journaled Node := do
  let token ← lift Parser.current
  lift Parser.advance
  let value ← parts.expression .lowest
  lift Parser.closeStatement
  return .result token value

/-- An expression standing as a statement. -/
def expressionStatement (parts : JournaledParts) : Journaled Node := do
  let token ← lift Parser.current
  let inner ← parts.expression .lowest
  lift Parser.closeStatement
  return .expression token inner

/-- A statement. -/
def statement (parts : JournaledParts) : Journaled Node := do
  match (← lift Parser.current).kind with
  | .letWord => binding parts
  | .returnWord => result parts
  | _ => expressionStatement parts

/-- The statements up to a token of one of the `closing` kinds or the end of the text. -/
def statementsWith (parts : JournaledParts) (closing : List TokenKind) :
    Nat → Journaled (List Node)
  | 0 => lift (Parser.giveUp .endless)
  | rounds + 1 => do
    let token ← lift Parser.current
    if token.kind = .eof || token.kind ∈ closing then return []
    else
      match ← attempt (statement parts) with
      | some first =>
        lift Parser.advance
        return first :: (← statementsWith parts closing rounds)
      | none =>
        lift (Parser.skipTo closing)
        if (← lift Parser.current).kind ∈ closing then return []
        else
          lift Parser.advance
          statementsWith parts closing rounds

/-- A block. -/
def blockWith (parts : JournaledParts) : Journaled (Token × List Node) := do
  let brace ← lift Parser.current
  lift Parser.advance
  let statements ← statementsWith parts [.rbrace] ((← lift Parser.remaining) + 1)
  return (brace, statements)

end Journaled

/-- The parsers for parts that are nested to a bounded depth. -/
def JournaledParts.upTo (grammar : Grammar) : Nat → JournaledParts
  | 0 => ⟨fun _ => .lift (Parser.giveUp .endless), .lift (Parser.giveUp .endless)⟩
  | depth + 1 =>
    { expression := fun threshold journal =>
        Journaled.expressionWith grammar (upTo grammar depth) threshold journal
      block := fun journal => Journaled.blockWith (upTo grammar depth) journal }

/-- All statements of a text. -/
def Journaled.program (grammar : Grammar) : Journaled (List Node) := do
  let parts := JournaledParts.upTo grammar ((← lift Parser.remaining) + 1)
  statementsWith parts [] ((← lift Parser.remaining) + 1)

/-- The outcome of parsing a text, and the journal of it. -/
def parseJournaled (source : String) : Except Abort (Parsed × Journal) :=
  match Journaled.program .standard { state := { window := .ofSource source } } with
  | .ok statements after => .ok (⟨statements, after.state.diagnostics⟩, after)
  | .error (.malformed diagnostic) after =>
    .ok (⟨[], after.state.diagnostics ++ [diagnostic]⟩, after)
  | .error (.abort cause) _ => .error cause

/-! ## The journal is kept, and nothing else is changed -/

/-- The diagnostics so far are those of the calls in the journal, and but for some that are pending,
there is one for each fault that was noticed. -/
structure Journal.Balanced (pending : List Diagnostic) (journal : Journal) : Prop where
  recorded : journal.state.diagnostics = diagnosticsOf journal.calls
  noticed : journal.noticed = journal.state.diagnostics ++ pending

/-- The journal is balanced in the end.  If the construct is malformed, its diagnostic is pending. -/
def BalancedAfter {α : Type} : EStateM.Result Stop Journal α → Prop
  | .ok _ after => after.Balanced []
  | .error (.malformed diagnostic) after => after.Balanced [diagnostic]
  | .error (.abort _) _ => True

/-- A result without its journal. -/
def withoutJournal {α : Type} :
    EStateM.Result Stop Journal α → EStateM.Result Stop ParserState α
  | .ok a after => .ok a after.state
  | .error stop after => .error stop after.state

/-- The parser leaves the diagnostics as they are. -/
def Parser.Silent {α : Type} (parser : Parser α) : Prop :=
  ∀ state, match parser state with
    | .ok _ after | .error _ after => after.diagnostics = state.diagnostics

namespace Parser.Silent

variable {α β : Type} {parser : Parser α} {next : α → Parser β}

theorem pure (a : α) : Silent (Pure.pure a : Parser α) := fun _ => rfl

theorem bind (h : Silent parser) (h' : ∀ a, Silent (next a)) : Silent (parser >>= next) := by
  intro state
  have hfirst := h state
  simp only [Bind.bind, EStateM.bind]
  revert hfirst
  cases parser state with
  | ok a middle =>
    intro hfirst
    have hsecond := h' a middle
    simp only
    revert hsecond
    cases next a middle <;> exact fun hsecond => hsecond.trans hfirst
  | error stop middle => exact id

theorem ite {c : Prop} [Decidable c] {other : Parser α} (h : Silent parser) (h' : Silent other) :
    Silent (if c then parser else other) := by
  split <;> assumption

theorem current : Silent current := fun _ => rfl

theorem upcoming : Silent upcoming := fun _ => rfl

theorem remaining : Silent remaining := fun _ => rfl

theorem advance : Silent advance := fun _ => rfl

theorem skipTo (kinds : List TokenKind) : Silent (skipTo kinds) := fun _ => rfl

theorem stop (reason : Stop) : Silent (throw reason : Parser α) := fun _ => rfl

theorem expect (wanted : TokenKind) : Silent (expect wanted) :=
  .bind .upcoming fun _ => .ite .advance (.stop _)

theorem name : Silent name := .bind .current fun _ => .pure _

theorem reference : Silent reference := .bind .name fun _ => .pure _

theorem boolean : Silent boolean := .bind .current fun _ => .pure _

theorem integer : Silent integer := by
  refine .bind .current fun token => ?_
  split
  · exact .stop _
  · exact .ite (.stop _) (.ite (.stop _) (.pure _))

theorem parameter : Silent parameter := .bind (.expect _) fun _ => .name

theorem closeStatement : Silent closeStatement :=
  .bind .upcoming fun _ => .ite .advance (.pure _)

end Parser.Silent

namespace Journaled

variable {α β : Type}

/-- Without its journal this is the parser, and the journal accounts for all diagnostics. -/
structure Accounts (journaled : Journaled α) (parser : Parser α) : Prop where
  same : ∀ journal : Journal, withoutJournal (journaled journal) = parser journal.state
  balanced : ∀ journal : Journal, journal.Balanced [] → BalancedAfter (journaled journal)

/-- The parsers for the parts of a construct account for their diagnostics. -/
structure PartsAccount (journaled : JournaledParts) (parts : Parts) : Prop where
  expression : ∀ threshold, Accounts (journaled.expression threshold) (parts.expression threshold)
  block : Accounts journaled.block parts.block

namespace Accounts

variable {journaled : Journaled α} {parser : Parser α} {next : α → Journaled β}
  {next' : α → Parser β}

theorem pure (a : α) : Accounts (Pure.pure a) (Pure.pure a) :=
  ⟨fun _ => rfl, fun _ => id⟩

theorem bind (h : Accounts journaled parser) (h' : ∀ a, Accounts (next a) (next' a)) :
    Accounts (journaled >>= next) (parser >>= next') where
  same journal := by
    simp only [Bind.bind, EStateM.bind, ← h.same journal]
    cases journaled journal with
    | ok a middle => exact (h' a).same middle
    | error stop middle => rfl
  balanced journal hbalanced := by
    have hmiddle := h.balanced journal hbalanced
    simp only [Bind.bind, EStateM.bind]
    revert hmiddle
    cases journaled journal with
    | ok a middle => exact (h' a).balanced middle
    | error stop middle => cases stop <;> exact id

theorem ite {c : Prop} [Decidable c] {other : Journaled α} {other' : Parser α}
    (h : Accounts journaled parser) (h' : Accounts other other') :
    Accounts (if c then journaled else other) (if c then parser else other') := by
  split <;> assumption

/-- A parser that records nothing leaves its fault pending. -/
theorem lift (h : parser.Silent) : Accounts (Journaled.lift parser) parser where
  same journal := by
    rw [Journaled.lift]
    cases parser journal.state with
    | ok a state => rfl
    | error stop state => cases stop <;> rfl
  balanced journal hbalanced := by
    have hsilent := h journal.state
    rw [Journaled.lift]
    revert hsilent
    cases parser journal.state with
    | ok a state =>
      intro (hsilent : state.diagnostics = _)
      exact ⟨hsilent.trans hbalanced.recorded, hbalanced.noticed.trans (by rw [hsilent])⟩
    | error stop state =>
      intro (hsilent : state.diagnostics = _)
      cases stop with
      | malformed diagnostic =>
        refine ⟨hsilent.trans hbalanced.recorded, ?_⟩
        show journal.noticed ++ [diagnostic] = state.diagnostics ++ [diagnostic]
        rw [hbalanced.noticed, hsilent, List.append_nil]
      | abort cause => exact True.intro

/-- A call that returns no statement puts the pending diagnostic on record, and is entered with it. -/
theorem attempt {journaled : Journaled Node} {parser : Parser Node} (h : Accounts journaled parser) :
    Accounts (Journaled.attempt journaled) (Parser.attempt parser) where
  same journal := by
    simp only [Journaled.attempt, Parser.attempt, ← h.same journal]
    cases journaled journal with
    | ok tree after => rfl
    | error stop after => cases stop <;> rfl
  balanced journal hbalanced := by
    have hafter := h.balanced journal hbalanced
    simp only [Journaled.attempt]
    revert hafter
    cases journaled journal with
    | ok tree after =>
      intro (hafter : after.Balanced [])
      exact ⟨hafter.recorded.trans (diagnosticsOf_returned _ tree).symm, hafter.noticed⟩
    | error stop after =>
      cases stop with
      | malformed diagnostic =>
        intro (hafter : after.Balanced [diagnostic])
        refine ⟨?_, hafter.noticed.trans (List.append_nil _).symm⟩
        show after.state.diagnostics ++ [diagnostic] = _
        rw [diagnosticsOf_dropped, hafter.recorded]
      | abort cause => exact id

/-! ### The constructs -/

theorem items {item : Journaled α} {item' : Parser α} (h : Accounts item item') :
    ∀ rounds, Accounts (items item rounds) (Parser.items item' rounds)
  | 0 => .lift (.stop _)
  | rounds + 1 => .bind h fun _ => .bind (.lift .upcoming) fun _ => .ite
    (.bind (.lift .advance) fun _ => .bind (items h rounds) fun _ => .pure _) (.pure _)

theorem parenthesized {item : Journaled α} {item' : Parser α} (h : Accounts item item') :
    Accounts (parenthesized item) (Parser.parenthesized item') :=
  .bind (.lift .upcoming) fun _ => .ite (.bind (.lift .advance) fun _ => .pure _) <|
    .bind (.lift .remaining) fun _ => .bind (items h _) fun _ => .bind (.lift (.expect _)) fun _ =>
      .pure _

variable {journaledParts : JournaledParts} {parts : Parts} (h : PartsAccount journaledParts parts)
include h

theorem argument : Accounts (argument journaledParts) (Parser.argument parts) :=
  .bind (.lift .advance) fun _ => h.expression _

theorem unary : Accounts (unary journaledParts) (Parser.unary parts) :=
  .bind (.lift .current) fun _ => .bind (.lift .advance) fun _ => .bind (h.expression _) fun _ =>
    .pure _

theorem group : Accounts (group journaledParts) (Parser.group parts) :=
  .bind (.lift .advance) fun _ => .bind (h.expression _) fun _ => .bind (.lift (.expect _)) fun _ =>
    .pure _

theorem conditional : Accounts (conditional journaledParts) (Parser.conditional parts) :=
  .bind (.lift .current) fun _ => .bind (.lift (.expect _)) fun _ => .bind (.lift .advance) fun _ =>
    .bind (h.expression _) fun _ => .bind (.lift (.expect _)) fun _ =>
    .bind (.lift (.expect _)) fun _ => .bind h.block fun _ => .bind (.lift .upcoming) fun _ => .ite
      (.bind (.lift .advance) fun _ => .bind (.lift (.expect _)) fun _ => .bind h.block fun _ =>
        .pure _)
      (.pure _)

theorem function : Accounts (function journaledParts) (Parser.function parts) :=
  .bind (.lift .current) fun _ => .bind (.lift (.expect _)) fun _ =>
    .bind (parenthesized (.lift .parameter)) fun _ => .bind (.lift (.expect _)) fun _ =>
    .bind h.block fun _ => .pure _

theorem opening : ∀ kind, Accounts (opening journaledParts kind) (Parser.opening parts kind)
  | .reference => .lift .reference
  | .integer => .lift .integer
  | .boolean => .lift .boolean
  | .unary => unary h
  | .group => group h
  | .conditional => conditional h
  | .function => function h

theorem continuation : ∀ kind left,
    Accounts (continuation journaledParts kind left) (Parser.continuation parts kind left)
  | .binary, _ => .bind (.lift .current) fun _ => .bind (.lift .advance) fun _ =>
    .bind (h.expression _) fun _ => .pure _
  | .call, _ => .bind (.lift .current) fun _ => .bind (parenthesized (argument h)) fun _ => .pure _

theorem climb (grammar : Grammar) (threshold : Precedence) : ∀ rounds left,
    Accounts (climb grammar journaledParts threshold rounds left)
      (Parser.climb grammar parts threshold rounds left)
  | 0, _ => .lift (.stop _)
  | rounds + 1, left => by
    refine .bind (.lift .upcoming) fun token => .ite ?_ (.pure _)
    generalize grammar.continuation? token.kind = kind
    cases kind with
    | none => exact .pure _
    | some kind =>
      exact .bind (.lift .advance) fun _ => .bind (continuation h _ _) fun _ =>
        climb grammar threshold rounds _

theorem expressionWith (grammar : Grammar) (threshold : Precedence) :
    Accounts (expressionWith grammar journaledParts threshold)
      (Parser.expressionWith grammar parts threshold) := by
  refine .bind (.lift .current) fun token => ?_
  generalize grammar.opening? token.kind = kind
  cases kind with
  | none => exact .lift (.stop _)
  | some kind =>
    exact .bind (opening h _) fun _ => .bind (.lift .remaining) fun _ => climb h grammar threshold _ _

theorem statement : Accounts (statement journaledParts) (Parser.statement parts) := by
  refine .bind (.lift .current) fun token => ?_
  generalize token.kind = kind
  cases kind with
  | letWord =>
    exact .bind (.lift .current) fun _ => .bind (.lift (.expect _)) fun _ =>
      .bind (.lift .name) fun _ => .bind (.lift (.expect _)) fun _ => .bind (.lift .advance) fun _ =>
      .bind (h.expression _) fun _ => .bind (.lift .closeStatement) fun _ => .pure _
  | returnWord =>
    exact .bind (.lift .current) fun _ => .bind (.lift .advance) fun _ =>
      .bind (h.expression _) fun _ => .bind (.lift .closeStatement) fun _ => .pure _
  | _ =>
    exact .bind (.lift .current) fun _ => .bind (h.expression _) fun _ =>
      .bind (.lift .closeStatement) fun _ => .pure _

theorem statementsWith (closing : List TokenKind) : ∀ rounds,
    Accounts (statementsWith journaledParts closing rounds)
      (Parser.statementsWith parts closing rounds)
  | 0 => .lift (.stop _)
  | rounds + 1 => by
    refine .bind (.lift .current) fun token => .ite (.pure _) <| .bind (.attempt (statement h)) ?_
    rintro (_ | first)
    · exact .bind (.lift (.skipTo _)) fun _ => .bind (.lift .current) fun _ => .ite (.pure _) <|
        .bind (.lift .advance) fun _ => statementsWith closing rounds
    · exact .bind (.lift .advance) fun _ => .bind (statementsWith closing rounds) fun _ => .pure _

theorem blockWith : Accounts (blockWith journaledParts) (Parser.blockWith parts) :=
  .bind (.lift .current) fun _ => .bind (.lift .advance) fun _ => .bind (.lift .remaining) fun _ =>
    .bind (statementsWith h _ _) fun _ => .pure _

end Accounts

theorem account_upTo (grammar : Grammar) : ∀ depth,
    PartsAccount (.upTo grammar depth) (.upTo grammar depth)
  | 0 => ⟨fun _ => .lift (.stop (.abort .endless)), .lift (.stop (.abort .endless))⟩
  | depth + 1 =>
    ⟨fun threshold => .expressionWith (account_upTo grammar depth) grammar threshold,
      .blockWith (account_upTo grammar depth)⟩

/-- **Keeping the journal changes nothing**, and the journal accounts for all diagnostics. -/
theorem program_accounts (grammar : Grammar) :
    Accounts (program grammar) (Parser.program grammar) :=
  .bind (.lift .remaining) fun _ => .bind (.lift .remaining) fun _ =>
    .statementsWith (account_upTo grammar _) _ _

end Journaled

/-! ## Whole texts -/

/-- The parser of whole texts comes to a list of statements, if it can read the tokens. -/
theorem Parser.exists_program {window : TokenStream} (hlast : window.last.kind = .eof)
    (hlegible : ∀ token ∈ window.ahead, token.Legible) :
    ∃ trees after, program .standard { window } = .ok trees after := by
  obtain ⟨trees, after, hprogram, -⟩ := exists_program_of_tame Grammar.tame_standard hlast hlegible
  exact ⟨trees, after, hprogram⟩

theorem length_diagnosticsOf (calls : List StatementCall) :
    (diagnosticsOf calls).length = calls.countP StatementCall.isDropped := by
  induction calls with
  | nil => rfl
  | cons call rest ih =>
    cases call with
    | returned statement =>
      rw [List.countP_cons_of_neg Bool.false_ne_true, ← ih]
      rfl
    | dropped diagnostic =>
      rw [List.countP_cons_of_pos rfl, ← ih]
      rfl

/-- **Nothing is dropped silently, and nothing is reported twice.**  The diagnostics of a text are the
faults that were noticed, and they are those of the statements that were dropped, at the top or in a block
at any depth, one for each; and a text is refused exactly if there are any. -/
theorem parse_accounts {source : String}
    (h : ∀ token ∈ Token.scan source.toList,
      token.kind = .int → token.literal.length ≤ digitLimit) :
    ∃ parsed journal, parse source = .ok parsed ∧ parseJournaled source = .ok (parsed, journal) ∧
      journal.noticed = parsed.diagnostics ∧ parsed.diagnostics = diagnosticsOf journal.calls ∧
      parsed.diagnostics.length = journal.calls.countP StatementCall.isDropped ∧
      ∀ file, parseStrictly source file =
        if ∃ call ∈ journal.calls, call.isDropped = true then
          .error (.malformed ⟨parsed.diagnostics, file⟩)
        else .ok parsed.statements := by
  let start : Journal := { state := { window := .ofSource source } }
  obtain ⟨trees, after, hprogram⟩ := @Parser.exists_program (.ofSource source) rfl
    fun token htoken => Token.legible_of_mem_scan htoken (h token htoken)
  have hsame := (Journaled.program_accounts .standard).same start
  have hbalanced := (Journaled.program_accounts .standard).balanced start ⟨rfl, rfl⟩
  have hparse : parse source = .ok ⟨trees, after.diagnostics⟩ := by
    rw [parse, parseTokens, Parser.settle, hprogram]
    rfl
  rw [show Parser.program .standard start.state = .ok trees after from hprogram] at hsame
  cases hrun : Journaled.program .standard start with
  | error stop journal =>
    rw [hrun] at hsame
    cases hsame
  | ok found journal =>
    rw [hrun] at hsame hbalanced
    obtain ⟨rfl, rfl⟩ := EStateM.Result.ok.inj hsame
    have hrecorded : journal.state.diagnostics = diagnosticsOf journal.calls := hbalanced.recorded
    have hnoticed : journal.noticed = journal.state.diagnostics :=
      hbalanced.noticed.trans (List.append_nil _)
    have hlength := congrArg List.length hrecorded
    rw [length_diagnosticsOf] at hlength
    refine ⟨_, journal, hparse, ?_, hnoticed, hrecorded, hlength, fun file => ?_⟩
    · rw [parseJournaled, hrun]
    · delta parseStrictly
      rw [hparse]
      have hempty : journal.state.diagnostics.isEmpty = true ↔
          ¬∃ call ∈ journal.calls, call.isDropped = true := by
        rw [List.isEmpty_iff, ← List.length_eq_zero_iff, hlength, List.countP_eq_zero]
        simp
      by_cases hdropped : ∃ call ∈ journal.calls, call.isDropped = true
      · rw [if_pos hdropped]
        exact if_neg fun hnone => hempty.1 hnone hdropped
      · rw [if_neg hdropped]
        exact if_pos (hempty.2 hdropped)

/-- In the block of a function one of two statements is dropped; then a parenthesis goes wrong, so that the
statement around the block is dropped, too. -/
theorem parse_accounts_block :
    let source := "f(fn(x) \x7b let 5; b \x7d; c"
    (∀ token ∈ Token.scan source.toList,
      token.kind = .int → token.literal.length ≤ digitLimit) ∧
    (∃ parsed journal, parse source = .ok parsed ∧ parseJournaled source = .ok (parsed, journal) ∧
      journal.noticed = parsed.diagnostics ∧ parsed.diagnostics = diagnosticsOf journal.calls ∧
      parsed.diagnostics.length = journal.calls.countP StatementCall.isDropped ∧
      ∀ file, parseStrictly source file =
        if ∃ call ∈ journal.calls, call.isDropped = true then
          .error (.malformed ⟨parsed.diagnostics, file⟩)
        else .ok parsed.statements) ∧
      (parseJournaled source).toOption.map
        (fun outcome => outcome.2.calls.map StatementCall.isDropped) =
          some [true, false, true, false] := by
  intro source
  have h : ∀ token ∈ Token.scan source.toList,
      token.kind = .int → token.literal.length ≤ digitLimit := by decide +kernel
  exact ⟨h, parse_accounts h, by decide +kernel⟩

end MonkeyLang
