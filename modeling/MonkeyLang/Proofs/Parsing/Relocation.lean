import MonkeyLang.Proofs.Parsing.Seam
import MonkeyLang.Proofs.Parsing.Twins
import MonkeyLang.Proofs.Scanning.Spaced

/-!
# Parsing does not look at places

Tokens carry their places through the parser into trees and diagnostics, and nothing is ever decided by
them.  So if the places in a state are changed in any way, every parser does the same there, down to the
reason for giving up, with its places changed in the same way (`Parser.Carries`).  Like the other
properties that hold of every parser, this is read off the shape of each.

With all places made equal, it says that a text is parsed by the kinds and texts of its tokens:
`parseTokens_mapPlace`.  So blanks matter only where they part tokens, and a text can be replaced by
the texts of its tokens with spaces between them (`parse_spaced`).
-/

set_option autoImplicit false

namespace MonkeyLang

/-! ## Changing places -/

/-- The same tokens at other places. -/
def TokenStream.mapPlace (f : Position → Position) (stream : TokenStream) : TokenStream :=
  ⟨stream.ahead.map (Token.mapPlace f), stream.last.mapPlace f⟩

/-- The same state with other places. -/
def ParserState.mapPlace (f : Position → Position) (state : ParserState) : ParserState :=
  ⟨state.window.mapPlace f, state.diagnostics.map (Diagnostic.mapPlace f)⟩

/-- The same way of stopping with another place. -/
def Stop.mapPlace (f : Position → Position) : Stop → Stop
  | malformed diagnostic => malformed (diagnostic.mapPlace f)
  | abort cause => abort cause

namespace TokenStream

variable (f : Position → Position) (stream : TokenStream)

theorem current_mapPlace : (stream.mapPlace f).current = stream.current.mapPlace f := by
  obtain ⟨_ | ⟨first, rest⟩, last⟩ := stream <;> rfl

theorem advance_mapPlace : (stream.mapPlace f).advance = stream.advance.mapPlace f := by
  obtain ⟨_ | ⟨first, rest⟩, last⟩ := stream <;> rfl

theorem upcoming_mapPlace : (stream.mapPlace f).upcoming = stream.upcoming.mapPlace f := by
  rw [← current_advance, advance_mapPlace, current_mapPlace, current_advance]

end TokenStream

namespace ParserState

variable (f : Position → Position) (state : ParserState)

theorem advance_mapPlace : (state.mapPlace f).advance = state.advance.mapPlace f :=
  congrArg (ParserState.mk · _) (state.window.advance_mapPlace f)

theorem skip_mapPlace (kinds : List TokenKind) :
    (state.mapPlace f).skip kinds = (state.skip kinds).mapPlace f :=
  congrArg (fun ahead => ParserState.mk ⟨ahead, _⟩ _) List.dropWhile_map

theorem record_mapPlace (diagnostic : Diagnostic) :
    (state.mapPlace f).record (diagnostic.mapPlace f) = (state.record diagnostic).mapPlace f := by
  rw [mapPlace, mapPlace, record, record, List.map_append]
  rfl

end ParserState

/-! ## Parsers that carry places along -/

namespace Parser

variable {α β γ δ : Type} {f : Position → Position}

/-- How a run ends, with other places. -/
def relocate (f : Position → Position) (image : α → β) :
    EStateM.Result Stop ParserState α → EStateM.Result Stop ParserState β
  | .ok a after => .ok (image a) (after.mapPlace f)
  | .error stop after => .error (stop.mapPlace f) (after.mapPlace f)

/-- Where the places are changed, the second parser does what the first one does without the change. -/
def Carries (f : Position → Position) (image : α → β) (first : Parser α) (second : Parser β) : Prop :=
  ∀ state, second (state.mapPlace f) = relocate f image (first state)

/-- The parser reads trees. -/
abbrev CarriesTree (f : Position → Position) : Parser Node → Parser Node → Prop :=
  Carries f (Node.mapTokens (Token.mapPlace f))

/-- The parser reads the opening brace of a block and its statements. -/
abbrev CarriesBlock (f : Position → Position) :
    Parser (Token × List Node) → Parser (Token × List Node) → Prop :=
  Carries f (Prod.map (Token.mapPlace f) (Node.mapTokensAll (Token.mapPlace f)))

/-- The parsers for the parts of a construct carry places along. -/
structure PartsCarry (f : Position → Position) (parts parts' : Parts) : Prop where
  expression : ∀ threshold, CarriesTree f (parts.expression threshold) (parts'.expression threshold)
  block : CarriesBlock f parts.block parts'.block

namespace Carries

variable {image : α → β} {first : Parser α} {second : Parser β}

theorem pure {a : α} {b : β} (h : b = image a) : Carries f image (Pure.pure a) (Pure.pure b) :=
  fun _ => h ▸ rfl

theorem bind {image' : γ → δ} {next : α → Parser γ} {next' : β → Parser δ}
    (h : Carries f image first second) (h' : ∀ a, Carries f image' (next a) (next' (image a))) :
    Carries f image' (first >>= next) (second >>= next') := by
  intro state
  simp only [Bind.bind, EStateM.bind, h state]
  cases first state with
  | ok a middle => exact h' a middle
  | error stop middle => rfl

theorem ite {c : Prop} [Decidable c] {first' : Parser α} {second' : Parser β}
    (h : Carries f image first second) (h' : Carries f image first' second') :
    Carries f image (if c then first else first') (if c then second else second') := by
  split <;> assumption

theorem current : Carries f (Token.mapPlace f) current current :=
  fun state => congrArg (EStateM.Result.ok · _) (state.window.current_mapPlace f)

theorem upcoming : Carries f (Token.mapPlace f) upcoming upcoming :=
  fun state => congrArg (EStateM.Result.ok · _) (state.window.upcoming_mapPlace f)

theorem remaining : Carries f id remaining remaining :=
  fun _ => congrArg (EStateM.Result.ok · _) (List.length_map (Token.mapPlace f))

theorem advance : Carries f id advance advance :=
  fun state => congrArg (EStateM.Result.ok ()) (state.advance_mapPlace f)

theorem skipTo (kinds : List TokenKind) : Carries f id (skipTo kinds) (skipTo kinds) :=
  fun state => congrArg (EStateM.Result.ok ()) (state.skip_mapPlace f kinds)

theorem fail (fault : Fault) (token : Token) :
    Carries f image (fail fault token) (fail fault (token.mapPlace f)) :=
  fun _ => rfl

theorem giveUp (cause : Abort) : Carries f image (giveUp cause) (giveUp cause) :=
  fun _ => rfl

theorem expect (wanted : TokenKind) : Carries f id (expect wanted) (expect wanted) :=
  .bind .upcoming fun token => .ite .advance (.fail _ token)

theorem attempt (h : Carries f image first second) :
    Carries f (Option.map image) (attempt first) (attempt second) := by
  intro state
  simp only [Parser.attempt, h state]
  cases first state with
  | ok a after => rfl
  | error stop after =>
    cases stop with
    | malformed diagnostic =>
      exact congrArg (EStateM.Result.ok none) (after.record_mapPlace f diagnostic)
    | abort cause => rfl

/-! ## Constructs -/

theorem name : Carries f (Identifier.mapToken (Token.mapPlace f)) name name :=
  .bind .current fun _ => .pure rfl

theorem parameter : Carries f (Identifier.mapToken (Token.mapPlace f)) parameter parameter :=
  .bind (.expect _) fun _ => name

theorem reference : CarriesTree f reference reference :=
  .bind name fun _ => .pure rfl

theorem boolean : CarriesTree f boolean boolean :=
  .bind .current fun _ => .pure rfl

theorem integer : CarriesTree f integer integer := by
  refine .bind .current fun token => ?_
  rw [show (token.mapPlace f).literal = token.literal from rfl]
  split
  · exact .giveUp _
  · exact .ite (.giveUp _) (.ite (.fail _ token) (.pure rfl))

theorem closeStatement : Carries f id closeStatement closeStatement :=
  .bind .upcoming fun _ => .ite .advance (.pure rfl)

theorem items {item : Parser α} {item' : Parser β} (h : Carries f image item item') :
    ∀ rounds, Carries f (List.map image) (items item rounds) (items item' rounds)
  | 0 => .giveUp _
  | rounds + 1 => .bind h fun _ => .bind .upcoming fun _ => .ite
    (.bind .advance fun _ => .bind (items h rounds) fun _ => .pure rfl) (.pure rfl)

theorem parenthesized {item : Parser α} {item' : Parser β} (h : Carries f image item item') :
    Carries f (List.map image) (parenthesized item) (parenthesized item') :=
  .bind .upcoming fun _ => .ite (.bind .advance fun _ => .pure rfl) <|
    .bind .remaining fun _ => .bind (items h _) fun _ => .bind (.expect _) fun _ => .pure rfl

variable {parts parts' : Parts} (h : PartsCarry f parts parts')
include h

theorem argument : CarriesTree f (argument parts) (argument parts') :=
  .bind .advance fun _ => h.expression _

theorem unary : CarriesTree f (unary parts) (unary parts') :=
  .bind .current fun _ => .bind .advance fun _ => .bind (h.expression _) fun _ => .pure rfl

theorem group : CarriesTree f (group parts) (group parts') :=
  .bind .advance fun _ => .bind (h.expression _) fun _ => .bind (.expect _) fun _ => .pure rfl

theorem conditional : CarriesTree f (conditional parts) (conditional parts') :=
  .bind .current fun _ => .bind (.expect _) fun _ => .bind .advance fun _ =>
    .bind (h.expression _) fun _ => .bind (.expect _) fun _ => .bind (.expect _) fun _ =>
    .bind h.block fun _ => .bind .upcoming fun _ => .ite
      (.bind .advance fun _ => .bind (.expect _) fun _ => .bind h.block fun _ => .pure rfl)
      (.pure rfl)

theorem function : CarriesTree f (function parts) (function parts') :=
  .bind .current fun _ => .bind (.expect _) fun _ => .bind (parenthesized parameter) fun _ =>
    .bind (.expect _) fun _ => .bind h.block fun _ => .pure rfl

theorem opening : ∀ kind, CarriesTree f (opening parts kind) (opening parts' kind)
  | .reference => reference
  | .integer => integer
  | .boolean => boolean
  | .unary => unary h
  | .group => group h
  | .conditional => conditional h
  | .function => function h

theorem continuation : ∀ kind left, CarriesTree f (continuation parts kind left)
    (continuation parts' kind (left.mapTokens (Token.mapPlace f)))
  | .binary, _ => .bind .current fun _ => .bind .advance fun _ => .bind (h.expression _) fun _ =>
    .pure rfl
  | .call, _ => .bind .current fun _ => .bind (parenthesized (argument h)) fun _ => .pure <| by
    rw [Node.mapTokens, Node.mapTokensAll_eq_map]

theorem climb (grammar : Grammar) (threshold : Precedence) : ∀ rounds left,
    CarriesTree f (climb grammar parts threshold rounds left)
      (climb grammar parts' threshold rounds (left.mapTokens (Token.mapPlace f)))
  | 0, _ => .giveUp _
  | rounds + 1, left => by
    refine .bind .upcoming fun token => .ite ?_ (.pure rfl)
    rw [show (token.mapPlace f).kind = token.kind from rfl]
    split
    · exact .pure rfl
    · exact .bind .advance fun _ => .bind (continuation h _ left) fun _ =>
        climb grammar threshold rounds _

theorem expressionWith (grammar : Grammar) (threshold : Precedence) :
    CarriesTree f (expressionWith grammar parts threshold)
      (expressionWith grammar parts' threshold) := by
  refine .bind .current fun token => ?_
  rw [show (token.mapPlace f).kind = token.kind from rfl]
  split
  · exact .fail _ token
  · exact .bind (opening h _) fun _ => .bind .remaining fun _ => climb h grammar threshold _ _

theorem statement : CarriesTree f (statement parts) (statement parts') := by
  rw [statement_eq, statement_eq]
  refine .bind .current fun _ => .ite ?_ (.ite ?_ ?_)
  · exact .bind .current fun _ => .bind (.expect _) fun _ => .bind name fun _ =>
      .bind (.expect _) fun _ => .bind .advance fun _ => .bind (h.expression _) fun _ =>
      .bind closeStatement fun _ => .pure rfl
  · exact .bind .current fun _ => .bind .advance fun _ => .bind (h.expression _) fun _ =>
      .bind closeStatement fun _ => .pure rfl
  · exact .bind .current fun _ => .bind (h.expression _) fun _ => .bind closeStatement fun _ =>
      .pure rfl

theorem statementsWith (closing : List TokenKind) : ∀ rounds,
    Carries f (Node.mapTokensAll (Token.mapPlace f)) (statementsWith parts closing rounds)
      (statementsWith parts' closing rounds)
  | 0 => .giveUp _
  | rounds + 1 => by
    refine .bind .current fun _ => .ite (.pure rfl) (.bind (.attempt (statement h)) ?_)
    rintro (_ | first)
    · exact .bind (.skipTo _) fun _ => .bind .current fun _ => .ite (.pure rfl) <|
        .bind .advance fun _ => statementsWith closing rounds
    · exact .bind .advance fun _ => .bind (statementsWith closing rounds) fun _ => .pure rfl

theorem blockWith : CarriesBlock f (blockWith parts) (blockWith parts') :=
  .bind .current fun _ => .bind .advance fun _ => .bind .remaining fun _ =>
    .bind (statementsWith h _ _) fun _ => .pure rfl

end Carries

theorem carry_upTo (f : Position → Position) (grammar : Grammar) : ∀ depth,
    PartsCarry f (.upTo grammar depth) (.upTo grammar depth)
  | 0 => ⟨fun _ => .giveUp _, .giveUp _⟩
  | depth + 1 =>
    ⟨fun threshold => .expressionWith (carry_upTo f grammar depth) grammar threshold,
      .blockWith (carry_upTo f grammar depth)⟩

/-- **Parsing does not look at places.** -/
theorem carries_program (f : Position → Position) (grammar : Grammar) :
    Carries f (Node.mapTokensAll (Token.mapPlace f)) (program grammar) (program grammar) :=
  .bind .remaining fun _ => .bind .remaining fun _ => .statementsWith (carry_upTo f grammar _) _ _

end Parser

/-! ## Texts with the same tokens -/

/-- Two texts are read alike: as equal trees, wherever their tokens stand, and with the same diagnostics
in the same order, wherever they were noticed; or both are given up for the same reason. -/
def ReadAlike : Except Abort Parsed → Except Abort Parsed → Prop
  | .ok parsed, .ok other => parsed.program.same other.program = true ∧
      parsed.diagnostics.map (·.fault.message) = other.diagnostics.map (·.fault.message)
  | .error cause, .error other => cause = other
  | .ok _, .error _ | .error _, .ok _ => False

/-- The outcome of a parse, with all places forgotten. -/
def Parsed.unplaced (parsed : Parsed) : Parsed :=
  ⟨Node.mapTokensAll Token.unplaced parsed.statements,
    parsed.diagnostics.map (Diagnostic.mapPlace fun _ => {})⟩

theorem readAlike_of_unplaced {outcome outcome' : Except Abort Parsed}
    (h : outcome.map Parsed.unplaced = outcome'.map Parsed.unplaced) : ReadAlike outcome outcome' := by
  cases outcome with
  | error cause =>
    cases outcome' with
    | error other => exact Except.error.inj h
    | ok other => cases h
  | ok parsed =>
    cases outcome' with
    | error other => cases h
    | ok other =>
      obtain ⟨hstatements, hdiagnostics⟩ := Parsed.mk.inj (Except.ok.inj h)
      refine ⟨(Node.same_iff _ _).2 (congrArg Node.program hstatements), ?_⟩
      have hmessages := congrArg (List.map (·.fault.message)) hdiagnostics
      rw [List.map_map, List.map_map] at hmessages
      exact hmessages

/-- What is parsed without places is what is parsed, without places. -/
theorem parseTokens_mapPlace (window : TokenStream) :
    parseTokens (window.mapPlace fun _ => {}) = (parseTokens window).map Parsed.unplaced := by
  have hprogram := Parser.carries_program (fun _ => {}) .standard { window }
  rw [show ParserState.mapPlace (fun _ => {}) { window } =
    { window := window.mapPlace fun _ => {} } from rfl] at hprogram
  simp only [parseTokens, Parser.settle, hprogram]
  cases Parser.program .standard { window } with
  | ok trees after => rfl
  | error stop after =>
    cases stop with
    | malformed diagnostic =>
      exact congrArg (fun state : ParserState => Except.ok (Parsed.mk [] state.diagnostics))
        (after.record_mapPlace _ diagnostic)
    | abort cause => rfl

/-- The kinds and texts of the tokens of two streams agree, up to the end of the text. -/
theorem TokenStream.mapPlace_eq_of_unplaced {window window' : TokenStream}
    (h : window.toList.map Token.unplaced = window'.toList.map Token.unplaced) :
    window.mapPlace (fun _ => {}) = window'.mapPlace fun _ => {} := by
  rw [TokenStream.toList, TokenStream.toList, List.map_append, List.map_append] at h
  obtain ⟨hahead, hlast⟩ := List.append_inj' h rfl
  exact (TokenStream.mk.injEq ..).mpr ⟨hahead, (List.cons.inj hlast).1⟩

theorem TokenStream.map_unplaced_toList (source : String) :
    (ofSource source).toList.map Token.unplaced =
      (Token.scan source.toList).map Token.unplaced ++ [⟨.eof, "", {}⟩] := by
  rw [toList, List.map_append]
  rfl

/-- **The texts of the tokens are enough.**  Whatever a text is, the texts of its tokens with one space
between each two of them have tokens of the same kinds with the same texts, illegal ones among them.  And
all texts of which this is true are parsed alike. -/
theorem parse_spaced (source : String) :
    let spaced := Token.spaced (Token.scan source.toList)
    (TokenStream.ofSource spaced).toList.map Token.unplaced =
        (TokenStream.ofSource source).toList.map Token.unplaced ∧
      (∀ other : String,
        (TokenStream.ofSource other).toList.map Token.unplaced =
            (TokenStream.ofSource source).toList.map Token.unplaced →
          ReadAlike (parse other) (parse source)) ∧
      ReadAlike (parse spaced) (parse source) := by
  intro spaced
  have htokens : (TokenStream.ofSource spaced).toList.map Token.unplaced =
      (TokenStream.ofSource source).toList.map Token.unplaced := by
    rw [TokenStream.map_unplaced_toList, TokenStream.map_unplaced_toList,
      Token.map_unplaced_scan_spaced]
  have halike : ∀ other : String, (TokenStream.ofSource other).toList.map Token.unplaced =
      (TokenStream.ofSource source).toList.map Token.unplaced →
        ReadAlike (parse other) (parse source) := fun other hother =>
    readAlike_of_unplaced <| by
      rw [parse, parse, ← parseTokens_mapPlace, ← parseTokens_mapPlace,
        TokenStream.mapPlace_eq_of_unplaced hother]
  refine ⟨htokens, halike, ?_⟩
  apply halike
  exact htokens

end MonkeyLang
