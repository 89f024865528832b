import MonkeyLang.Proofs.Parsing.Braces

/-!
# Where a block ends

A block need not end at its own closing brace.  A malformed statement may be given up inside a block that
is nested in it, or on the brace that closes one.  The skipping then stops at a closing brace that is not
the outer block's own; but the outer block ends there, and what stands behind is read outside of it.

This happens just if a statement is dropped that opens more blocks than it closes, up to where the
skipping stops.  To say so, `Parser.blockCarefully` is a variant of the parser of blocks that checks
every statement that it drops, in the block and in those inside it, and gives the whole parse up if the
check fails.  A block ends at its own brace if and only if the careful parser gets through
(`Parser.blockWith_ends`).

The proof compares the two parsers construct by construct, by the level that they end on: the `surplus` of
the tokens that are left.  Either both do the same and end on the level that they have started on, or the
careful one gives up and the other one ends on a higher level (`Parser.Judged`).  From a higher level
there is no way back, since skipping passes over no closing brace.
-/

set_option autoImplicit false

namespace MonkeyLang

/-! ## Levels -/

namespace ParserState

/-- How many more blocks are closed than opened from the current token on. -/
def level (state : ParserState) : Int :=
  surplus state.window.ahead

/-- How many more blocks are closed than opened behind the current token. -/
def levelPast (state : ParserState) : Int :=
  surplus state.window.ahead.tail

/-- The current token opens no block. -/
structure Unopened (state : ParserState) : Prop where
  last : state.window.last.kind = .eof
  current : state.window.current.kind ≠ .lbrace

variable {s : ParserState}

@[simp] theorem level_advance (s : ParserState) : s.advance.level = s.levelPast := rfl

theorem levelPast_eq (h : s.window.current.kind.isBrace = false) : s.levelPast = s.level :=
  surplus_tail fun _ htoken => Seam.current_of_head? htoken ▸ h

theorem level_of_lbrace (hlast : s.window.last.kind = .eof) (h : s.window.current.kind = .lbrace) :
    s.level = s.levelPast - 1 := by
  rw [level, levelPast, TokenStream.ahead_eq_cons hlast (by rw [h]; decide)]
  exact surplus_lbrace h _

theorem level_of_rbrace (hlast : s.window.last.kind = .eof) (h : s.window.current.kind = .rbrace) :
    s.level = s.levelPast + 1 := by
  rw [level, levelPast, TokenStream.ahead_eq_cons hlast (by rw [h]; decide)]
  exact surplus_rbrace h _

theorem Unopened.of_isBrace (hlast : s.window.last.kind = .eof)
    (h : s.window.current.kind.isBrace = false) : s.Unopened :=
  ⟨hlast, fun hkind => by simp [hkind] at h⟩

theorem Unopened.levelPast_le (h : s.Unopened) : s.levelPast ≤ s.level := by
  cases hbrace : s.window.current.kind.isBrace with
  | false => exact Int.le_of_eq (levelPast_eq hbrace)
  | true =>
    have hkind := (TokenKind.eq_of_isBrace hbrace).resolve_left h.current
    rw [level_of_rbrace h.last hkind]
    omega

/-- Skipping passes over no closing brace. -/
theorem level_le_skip (s : ParserState) : s.level ≤ (s.skip [.rbrace]).level :=
  surplus_le_dropWhile (fun token hskip hkind => by simp [hkind] at hskip) s.window.ahead

/-- Behind the semicolon that the skipping has stopped at, the level is the same. -/
theorem level_advance_skip (h : (s.skip [.rbrace]).window.current.kind ∉ [TokenKind.rbrace]) :
    (s.skip [.rbrace]).advance.level = (s.skip [.rbrace]).level := by
  refine surplus_tail fun token htoken => ?_
  rw [Seam.current_of_head? htoken] at h
  rw [skip_stops htoken h]
  rfl

end ParserState

namespace Parser

/-! ## Careful parsing -/

/-- The level of the current token. -/
def level : Parser Int := do
  return (← get).level

/-- How the statements of a block go on where the skipping has stopped. -/
def resume (others : Parser (List Node)) : Parser (List Node) := do
  if (← current).kind ∈ [TokenKind.rbrace] then return []
  else
    advance
    others

/-- How the statements of a block go on behind one that may be malformed, as in `statementsWith`.  But if
the level has changed where the skipping stops, then the parse is given up. -/
def goOn (cause : Abort) (start : Int) (others : Parser (List Node)) :
    Option Node → Parser (List Node)
  | some first => do
    advance
    return first :: (← others)
  | none => do
    skipTo [.rbrace]
    if (← level) = start then resume others else giveUp cause

/-- The statements of a block, where no statement may be dropped that changes the level. -/
def statementsCarefully (cause : Abort) (parts : Parts) : Nat → Parser (List Node)
  | 0 => giveUp .endless
  | rounds + 1 => do
    let token ← current
    if token.kind = .eof || token.kind ∈ [TokenKind.rbrace] then return []
    else
      let start ← level
      goOn cause start (statementsCarefully cause parts rounds) (← attempt (statement parts))

/-- A block, which must be closed, and where no statement may be dropped that changes the level. -/
def blockCarefully (cause : Abort) (parts : Parts) : Parser (Token × List Node) := do
  let brace ← current
  advance
  let statements ← statementsCarefully cause parts ((← remaining) + 1)
  if (← current).kind = .rbrace then return (brace, statements) else giveUp cause

end Parser

/-- The careful parsers for parts that are nested to a bounded depth. -/
def Parts.careful (cause : Abort) : Nat → Parts
  | 0 => ⟨fun _ => Parser.giveUp .endless, Parser.giveUp .endless⟩
  | depth + 1 =>
    { expression := fun threshold state =>
        Parser.expressionWith .standard (careful cause depth) threshold state
      block := fun state => Parser.blockCarefully cause (careful cause depth) state }

namespace Parser

variable {α β : Type}

/-! ## Judging a parser by its careful version -/

/-- How a parser ends. -/
abbrev Outcome (α : Type) : Type :=
  EStateM.Result Stop ParserState α

/-- The parse is given up. -/
def GivesUp (outcome : Outcome α) : Prop :=
  ∃ cause after, outcome = .error (.abort cause) after

instance : DecidablePred (GivesUp (α := α))
  | .ok _ _ => isFalse (by rintro ⟨_, _, ⟨⟩⟩)
  | .error (.malformed _) _ => isFalse (by rintro ⟨_, _, ⟨⟩⟩)
  | .error (.abort cause) after => isTrue ⟨cause, after, rfl⟩

/-- The outcome of the careful version is set against the parser itself.  If the parser has a result, then
either the careful version has the same one and the level is that of the start, or the careful version
has given up and the level is higher.  If the construct is malformed, then the level may be higher even
though nothing has been given up, since the statement is still to be dropped. -/
def Judged (start : Int) (outcome : Outcome α) (parser : Parser α) (s : ParserState) : Prop :=
  parser.Meets s
    (fun a t => t.Unopened ∧
      (outcome = .ok a t ∧ t.levelPast = start ∨ GivesUp outcome ∧ start < t.levelPast))
    (fun d t => t.window.last.kind = .eof ∧ start ≤ t.level ∧
      (outcome = .error (.malformed d) t ∨ GivesUp outcome ∧ start < t.level))
    fun _ => True

section Runs

variable {parser : Parser α} {next : α → Parser β} {s t : ParserState}

theorem bind_of_ok {a : α} (h : parser s = .ok a t) : (parser >>= next) s = next a t := by
  simp only [bind, EStateM.bind, h]

theorem bind_of_error {stop : Stop} (h : parser s = .error stop t) :
    (parser >>= next) s = .error stop t := by
  simp only [bind, EStateM.bind, h]

theorem GivesUp.bind (h : GivesUp (parser s)) : GivesUp ((parser >>= next) s) := by
  obtain ⟨cause, t, hrun⟩ := h
  exact ⟨cause, t, bind_of_error hrun⟩

theorem GivesUp.attempt (h : GivesUp (parser s)) : GivesUp (attempt parser s) := by
  obtain ⟨cause, t, hrun⟩ := h
  exact ⟨cause, t, by simp only [Parser.attempt, hrun]⟩

end Runs

namespace Judged

variable {start start' : Int} {outcome outcome' : Outcome α} {parser : Parser α} {s : ParserState}

/-- Once the careful version has given up, it does not matter what it would have done. -/
theorem givenUp (h : Judged start outcome parser s) (hup : GivesUp outcome') (hlt : start' < start) :
    Judged start' outcome' parser s := by
  refine Meets.mono h (fun a t ht => ?_) (fun d t ht => ?_) fun _ => id
  · obtain ⟨hunopened, ⟨-, hlevel⟩ | ⟨-, hlevel⟩⟩ := ht
    · exact ⟨hunopened, .inr ⟨hup, by omega⟩⟩
    · exact ⟨hunopened, .inr ⟨hup, by omega⟩⟩
  · obtain ⟨hlast, hlevel, -⟩ := ht
    exact ⟨hlast, by omega, .inr ⟨hup, by omega⟩⟩

/-- A parser without parts is its own careful version. -/
theorem self (h : parser.Meets s (fun _ t => t.Unopened ∧ t.levelPast = start)
      (fun _ t => t.window.last.kind = .eof ∧ start ≤ t.level) fun _ => True) :
    Judged start (parser s) parser s :=
  (h.and (Meets.run parser s)).mono (fun _ _ ht => ⟨ht.1.1, .inl ⟨ht.2, ht.1.2⟩⟩)
    (fun _ _ ht => ⟨ht.1.1, ht.1.2, .inl ht.2⟩) fun _ _ => True.intro

theorem bind {careful : Parser α} {next next' : α → Parser β}
    (h : Judged start (careful s) parser s)
    (h' : ∀ a t, t.Unopened → Judged t.levelPast (next a t) (next' a) t) :
    Judged start ((careful >>= next) s) (parser >>= next') s := by
  refine meets_bind.2 (Meets.mono h (fun a t ht => ?_) (fun d t ht => ?_) fun _ => id)
  · obtain ⟨hunopened, ⟨hsame, rfl⟩ | ⟨hup, hlevel⟩⟩ := ht
    · rw [bind_of_ok hsame]
      exact h' a t hunopened
    · exact (h' a t hunopened).givenUp hup.bind hlevel
  · obtain ⟨hlast, hlevel, hsame | ⟨hup, hhigher⟩⟩ := ht
    · exact ⟨hlast, hlevel, .inl (bind_of_error hsame)⟩
    · exact ⟨hlast, hlevel, .inr ⟨hup.bind, hhigher⟩⟩

theorem current {next next' : Token → Parser α}
    (h : Judged start (next s.window.current s) (next' s.window.current) s) :
    Judged start ((current >>= next) s) (current >>= next') s :=
  meets_bind.2 (meets_current.2 h)

theorem upcoming {next next' : Token → Parser α}
    (h : Judged start (next s.window.upcoming s) (next' s.window.upcoming) s) :
    Judged start ((upcoming >>= next) s) (upcoming >>= next') s :=
  meets_bind.2 (meets_upcoming.2 h)

theorem expect {wanted : TokenKind} {next next' : Unit → Parser α} (hs : s.Unopened)
    (h : s.window.upcoming.kind = wanted →
      Judged s.levelPast (next () s.advance) (next' ()) s.advance) :
    Judged s.levelPast ((expect wanted >>= next) s) (expect wanted >>= next') s := by
  refine meets_bind.2 (meets_expect.2 ⟨fun hkind => ?_, fun hkind => ?_⟩)
  · have hrun : Parser.expect wanted s = .ok () s.advance := congrFun (if_pos hkind) s
    rw [bind_of_ok hrun]
    exact h hkind
  · exact ⟨hs.last, hs.levelPast_le, .inl (bind_of_error (congrFun (if_neg hkind) s))⟩

theorem ite {c : Prop} [Decidable c] {careful careful' parser' : Parser α}
    (h : c → Judged start (careful s) parser s) (h' : ¬c → Judged start (careful' s) parser' s) :
    Judged start ((if c then careful else careful') s) (if c then parser else parser') s := by
  split
  · exact h ‹c›
  · exact h' ‹¬c›

end Judged

/-- The careful parser vets the parser of a construct that is entered on a token that opens no block; the
level behind that token is to be kept. -/
def Vets (careful parser : Parser α) : Prop :=
  ∀ s : ParserState, s.Unopened → Judged s.levelPast (careful s) parser s

/-- The careful parser vets the parser of a construct that may be entered on any token; the level with
that token is to be kept. -/
def VetsFrom (careful parser : Parser α) : Prop :=
  ∀ s : ParserState, s.window.last.kind = .eof → Judged s.level (careful s) parser s

/-- The careful parsers vet those for the parts of a construct, a block from the token before it on. -/
structure PartsVet (careful parts : Parts) : Prop where
  expression : ∀ threshold, VetsFrom (careful.expression threshold) (parts.expression threshold)
  block : Vets (expect .lbrace >>= fun _ => careful.block) (expect .lbrace >>= fun _ => parts.block)

/-! ## Constructs -/

namespace Vets

variable {careful parser : Parser α} {next next' : α → Parser β}

theorem pure (a : α) : Vets (Pure.pure a) (Pure.pure a) :=
  fun _ hs => ⟨hs, .inl ⟨rfl, rfl⟩⟩

theorem stop (reason : Stop) : Vets (throw reason : Parser α) (throw reason) := by
  intro s hs
  cases reason with
  | malformed diagnostic => exact ⟨hs.last, hs.levelPast_le, .inl rfl⟩
  | abort cause => exact True.intro

theorem bind (h : Vets careful parser) (h' : ∀ a, Vets (next a) (next' a)) :
    Vets (careful >>= next) (parser >>= next') :=
  fun s hs => (h s hs).bind h'

theorem ite {c : Prop} [Decidable c] {careful' parser' : Parser α} (h : Vets careful parser)
    (h' : Vets careful' parser') :
    Vets (if c then careful else careful') (if c then parser else parser') := by
  split <;> assumption

theorem current : Vets current current := fun _ hs => ⟨hs, .inl ⟨rfl, rfl⟩⟩

theorem remaining : Vets remaining remaining := fun _ hs => ⟨hs, .inl ⟨rfl, rfl⟩⟩

/-- The upcoming token may be passed over if it is no brace. -/
theorem onto {next next' : Unit → Parser α} {s : ParserState} (h : Vets (next ()) (next' ()))
    (hs : s.Unopened) (hkind : s.window.upcoming.kind.isBrace = false) :
    Judged s.levelPast ((advance >>= next) s) (advance >>= next') s := by
  have hstep := h s.advance (.of_isBrace hs.last hkind)
  rw [ParserState.levelPast_eq (s := s.advance) hkind, ParserState.level_advance] at hstep
  exact meets_bind.2 hstep

/-- If the upcoming token is of a kind, then it is passed over. -/
theorem take {wanted : TokenKind} (hwanted : wanted.isBrace = false) {next next' : Unit → Parser α}
    (h : Vets (next ()) (next' ())) (h' : Vets careful parser) :
    Vets (upcoming >>= fun token => if token.kind = wanted then advance >>= next else careful)
      (upcoming >>= fun token => if token.kind = wanted then advance >>= next' else parser) := by
  refine fun s hs => .upcoming (.ite (fun hkind => ?_) fun _ => h' s hs)
  exact onto h hs (hkind ▸ hwanted)

theorem expect {wanted : TokenKind} (hwanted : wanted.isBrace = false) :
    Vets (expect wanted) (expect wanted) := by
  refine fun s hs => .self (meets_expect.2 ⟨fun hkind => ?_, fun _ => ⟨hs.last, hs.levelPast_le⟩⟩)
  rw [← hkind] at hwanted
  exact ⟨.of_isBrace hs.last hwanted, ParserState.levelPast_eq hwanted⟩

/-- A part is read from behind the current token on. -/
theorem operand (h : VetsFrom careful parser) (h' : ∀ a, Vets (next a) (next' a)) :
    Vets (advance >>= fun _ => careful >>= next) (advance >>= fun _ => parser >>= next') :=
  fun s hs => (h s.advance hs.last).bind h'

theorem name : Vets name name := .bind .current fun _ => .pure _

theorem reference : Vets reference reference := .bind .name fun _ => .pure _

theorem boolean : Vets boolean boolean := .bind .current fun _ => .pure _

theorem integer : Vets integer integer := by
  refine .bind .current fun token => ?_
  split
  · exact .stop _
  · exact .ite (.stop _) (.ite (.stop _) (.pure _))

theorem parameter : Vets parameter parameter := .bind (.expect rfl) fun _ => .name

theorem closeStatement : Vets closeStatement closeStatement := .take rfl (.pure _) (.pure _)

theorem items {item item' : Parser α} (h : Vets item item') : ∀ rounds,
    Vets (items item rounds) (items item' rounds)
  | 0 => .stop _
  | rounds + 1 => .bind h fun _ => .take rfl (.bind (items h rounds) fun _ => .pure _) (.pure _)

theorem parenthesized {item item' : Parser α} (h : Vets item item') :
    Vets (parenthesized item) (parenthesized item') :=
  .take rfl (.pure _) <| .bind .remaining fun _ => .bind (items h _) fun _ =>
    .bind (.expect rfl) fun _ => .pure _

variable {careful parts : Parts} (h : PartsVet careful parts)
include h

theorem argument : Vets (argument careful) (argument parts) :=
  fun s hs => h.expression .lowest s.advance hs.last

theorem unary : Vets (unary careful) (unary parts) :=
  .bind .current fun _ => .operand (h.expression _) fun _ => .pure _

theorem group : Vets (group careful) (group parts) :=
  .operand (h.expression _) fun _ => .bind (.expect rfl) fun _ => .pure _

/-- A block is entered on the token before its opening brace. -/
theorem block {next next' : Token × List Node → Parser α}
    (h' : ∀ found, Vets (next found) (next' found)) :
    Vets (Parser.expect .lbrace >>= fun _ => careful.block >>= next)
      (Parser.expect .lbrace >>= fun _ => parts.block >>= next') := by
  have hboth := h.block.bind h'
  rwa [bind_assoc, bind_assoc] at hboth

theorem conditional : Vets (conditional careful) (conditional parts) :=
  .bind .current fun _ => .bind (.expect rfl) fun _ => .operand (h.expression _) fun _ =>
    .bind (.expect rfl) fun _ => block h fun _ => .take rfl (block h fun _ => .pure _) (.pure _)

theorem function : Vets (function careful) (function parts) :=
  .bind .current fun _ => .bind (.expect rfl) fun _ => .bind (parenthesized .parameter) fun _ =>
    block h fun _ => .pure _

theorem opening : ∀ kind, Vets (opening careful kind) (opening parts kind)
  | .reference => .reference
  | .integer => .integer
  | .boolean => .boolean
  | .unary => unary h
  | .group => group h
  | .conditional => conditional h
  | .function => function h

theorem continuation : ∀ kind left,
    Vets (continuation careful kind left) (continuation parts kind left)
  | .binary, _ => .bind .current fun _ => .operand (h.expression _) fun _ => .pure _
  | .call, _ => .bind .current fun _ => .bind (parenthesized (argument h)) fun _ => .pure _

theorem climb (threshold : Precedence) : ∀ rounds left,
    Vets (climb .standard careful threshold rounds left)
      (climb .standard parts threshold rounds left)
  | 0, _ => .stop _
  | rounds + 1, left => by
    refine fun s hs => .upcoming (.ite (fun _ => ?_) fun _ => Vets.pure left s hs)
    cases hkind : Grammar.standard.continuation? s.window.upcoming.kind with
    | none => exact Vets.pure left s hs
    | some kind =>
      refine onto (.bind (continuation h kind left) fun _ => climb threshold rounds _) hs ?_
      revert hkind
      cases s.window.upcoming.kind <;> first | (intro _; rfl) | (rintro ⟨⟩)

end Vets

namespace VetsFrom

variable {careful parser : Parser α}

/-- From a token that is no brace the level with it is the level behind it. -/
theorem of_vets (h : Vets careful parser) {s : ParserState} (hs : s.window.last.kind = .eof)
    (hkind : s.window.current.kind.isBrace = false) : Judged s.level (careful s) parser s := by
  rw [← ParserState.levelPast_eq hkind]
  exact h s (.of_isBrace hs hkind)

variable {careful parts : Parts} (h : PartsVet careful parts)
include h

theorem expressionWith (threshold : Precedence) :
    VetsFrom (expressionWith .standard careful threshold)
      (expressionWith .standard parts threshold) := by
  refine fun s hs => .current ?_
  cases hkind : Grammar.standard.opening? s.window.current.kind with
  | none => exact ⟨hs, Int.le_refl _, .inl rfl⟩
  | some kind =>
    refine of_vets (.bind (.opening h kind) fun _ => .bind .remaining fun _ => .climb h _ _ _) hs ?_
    revert hkind
    cases s.window.current.kind <;> first | (intro _; rfl) | (rintro ⟨⟩)

theorem statement : VetsFrom (statement careful) (statement parts) := by
  intro s hs
  rw [statement_eq, statement_eq]
  refine .current (.ite (fun hword => ?_) fun _ => .ite (fun hword => ?_) fun _ => .current ?_)
  · exact of_vets (.bind .current fun _ => .bind (.expect rfl) fun _ => .bind .name fun _ =>
      .bind (.expect rfl) fun _ => .operand (h.expression _) fun _ => .bind .closeStatement fun _ =>
      .pure _) hs (by simp [hword])
  · exact of_vets (.bind .current fun _ => .operand (h.expression _) fun _ =>
      .bind .closeStatement fun _ => .pure _) hs (by simp [hword])
  · exact (h.expression .lowest s hs).bind fun _ t ht =>
      Vets.bind .closeStatement (fun _ => .pure _) t ht

end VetsFrom

/-! ## Blocks -/

section Blocks

variable {careful parts : Parts} {s t : ParserState} {start : Int} (cause : Abort)

theorem attempt_of_ok {parser : Parser α} {a : α} (h : parser s = .ok a t) :
    attempt parser s = .ok (some a) t := by
  simp only [attempt, h]

theorem attempt_of_malformed {parser : Parser α} {diagnostic : Diagnostic}
    (h : parser s = .error (.malformed diagnostic) t) :
    attempt parser s = .ok none (t.record diagnostic) := by
  simp only [attempt, h]

/-- The statements of a block are read up to a closing brace or the end of the text.  Either there is the
level of the start and they are read carefully with the same result, or there is a higher level and the
careful version has given up. -/
structure Read (start : Int) (outcome : Outcome (List Node)) (body : List Node) (t : ParserState) :
    Prop where
  last : t.window.last.kind = .eof
  stops : t.window.current.kind = .eof ∨ t.window.current.kind ∈ [TokenKind.rbrace]
  verdict : outcome = .ok body t ∧ t.level = start ∨ GivesUp outcome ∧ start < t.level

theorem Read.givenUp {start' : Int} {outcome outcome' : Outcome (List Node)} {body body' : List Node}
    (h : Read start outcome body t) (hup : GivesUp outcome') (hlt : start' < start) :
    Read start' outcome' body' t := by
  refine ⟨h.last, h.stops, .inr ⟨hup, ?_⟩⟩
  obtain ⟨-, hlevel⟩ | ⟨-, hlevel⟩ := h.verdict
  · omega
  · omega

/-- The careful parser vets the parser of statements. -/
def VetsAll (careful parser : Parser (List Node)) : Prop :=
  ∀ s : ParserState, s.window.last.kind = .eof →
    parser.Meets s (Read s.level (careful s)) (fun _ _ => False) fun _ => True

namespace VetsAll

variable {careful parser : Parser (List Node)} {outcome : Outcome (List Node)}

theorem resume (h : VetsAll careful parser) (hlast : s.window.last.kind = .eof) :
    (resume parser).Meets (s.skip [.rbrace])
      (Read (s.skip [.rbrace]).level (resume careful (s.skip [.rbrace]))) (fun _ _ => False)
      fun _ => True := by
  refine meets_bind.2 (meets_current.2 (meets_ite.2 ⟨fun hclosing => ?_, fun hopen => ?_⟩))
  · exact ⟨hlast, .inr hclosing, .inl ⟨congrFun (if_pos hclosing) _, rfl⟩⟩
  · rw [show Parser.resume careful (s.skip [.rbrace]) = careful (s.skip [.rbrace]).advance from
      congrFun (if_neg hopen) _, ← ParserState.level_advance_skip hopen]
    exact meets_bind.2 (meets_advance.2 (h _ hlast))

/-- Behind a well-formed statement the others are read from the next token on. -/
theorem goOn_some (h : VetsAll careful parser) (first : Node) (hlast : s.window.last.kind = .eof)
    (hverdict : outcome = goOn cause start careful (some first) s ∧ s.levelPast = start ∨
      GivesUp outcome ∧ start < s.levelPast) :
    Meets (advance >>= fun _ => parser >>= fun rest => pure (first :: rest)) s (Read start outcome)
      (fun _ _ => False) fun _ => True := by
  refine meets_bind.2 (meets_advance.2 (meets_bind.2 ((h s.advance hlast).mono
    (fun rest t ht => ?_) (fun _ _ => id) fun _ => id)))
  obtain ⟨rfl, rfl⟩ | ⟨hup, hhigher⟩ := hverdict
  · exact ⟨ht.last, ht.stops, ht.verdict.imp (fun hrest => ⟨bind_of_ok hrest.1, hrest.2⟩)
      fun hrest => ⟨hrest.1.bind, hrest.2⟩⟩
  · exact ht.givenUp hup hhigher

/-- A malformed statement is dropped, and the others are read from where the skipping stops. -/
theorem goOn_none (h : VetsAll careful parser) (hlast : s.window.last.kind = .eof)
    (hlevel : start ≤ s.level)
    (hverdict : outcome = goOn cause start careful none s ∨ GivesUp outcome ∧ start < s.level) :
    Meets (skipTo [.rbrace] >>= fun _ => Parser.resume parser) s (Read start outcome)
      (fun _ _ => False) fun _ => True := by
  have hskip := s.level_le_skip
  refine meets_bind.2 (meets_skipTo.2 ((h.resume hlast).mono (fun rest t ht => ?_) (fun _ _ => id)
    fun _ => id))
  obtain rfl | ⟨hup, hhigher⟩ := hverdict
  · by_cases hkept : (s.skip [.rbrace]).level = start
    · rw [show goOn cause start careful none s = Parser.resume careful (s.skip [.rbrace]) from
        congrFun (if_pos hkept) (s.skip [.rbrace]), ← hkept]
      exact ht
    · rw [show goOn cause start careful none s = giveUp cause (s.skip [.rbrace]) from
        congrFun (if_neg hkept) (s.skip [.rbrace])]
      exact ht.givenUp ⟨cause, s.skip [.rbrace], rfl⟩ (by omega)
  · exact ht.givenUp hup (by omega)

/-- The statements of a block, if the parsers of their parts are vetted. -/
theorem statementsWith {careful parts : Parts} (h : PartsVet careful parts) : ∀ rounds,
    VetsAll (statementsCarefully cause careful rounds) (statementsWith parts [.rbrace] rounds)
  | 0 => fun _ _ => True.intro
  | rounds + 1 => by
    intro s hs
    refine meets_bind.2 (meets_current.2 (meets_ite.2 ⟨fun hstop => ?_, fun hopen => ?_⟩))
    · exact ⟨hs, by simpa using hstop, .inl ⟨congrFun (if_pos hstop) s, rfl⟩⟩
    · have hrun : statementsCarefully cause careful (rounds + 1) s = (attempt (statement careful) >>=
          goOn cause s.level (statementsCarefully cause careful rounds)) s :=
        congrFun (if_neg hopen) s
      rw [hrun]
      refine meets_bind.2 (meets_attempt.2 ((VetsFrom.statement h s hs).mono (fun first t ht => ?_)
        (fun d t ht => ?_) fun _ => id))
      · refine goOn_some cause (statementsWith h rounds) first ht.1.last (ht.2.imp ?_ ?_)
        · exact fun hsame => ⟨bind_of_ok (attempt_of_ok hsame.1), hsame.2⟩
        · exact fun hup => ⟨hup.1.attempt.bind, hup.2⟩
      · obtain ⟨hlast, hlevel, hverdict⟩ := ht
        refine goOn_none cause (s := t.record d) (statementsWith h rounds) hlast hlevel
          (hverdict.imp ?_ ?_)
        · exact fun hsame => bind_of_ok (attempt_of_malformed hsame)
        · exact fun hup => ⟨hup.1.attempt.bind, hup.2⟩

end VetsAll

/-- A block, entered on its opening brace. -/
theorem blockWith_judged (h : PartsVet careful parts) (hlast : s.window.last.kind = .eof)
    (hbrace : s.window.current.kind = .lbrace) :
    Judged s.level (blockCarefully cause careful s) (blockWith parts) s := by
  have hstart := ParserState.level_of_lbrace hlast hbrace
  have hbody := VetsAll.statementsWith cause h (s.advance.window.ahead.length + 1) s.advance hlast
  refine meets_bind.2 (meets_current.2 (meets_bind.2 (meets_advance.2 (meets_bind.2
    (meets_remaining.2 (meets_bind.2 (hbody.mono (fun body t ht => ?_) (fun _ _ => False.elim)
      fun _ => id)))))))
  rw [ParserState.level_advance] at ht
  have hunopened : t.Unopened := by
    refine ⟨ht.last, fun hkind => ?_⟩
    have hstops := ht.stops
    simp [hkind] at hstops
  have hle := hunopened.levelPast_le
  have hgivesUp (hup : GivesUp (statementsCarefully cause careful
      (s.advance.window.ahead.length + 1) s.advance)) : GivesUp (blockCarefully cause careful s) :=
    hup.bind
  refine ⟨hunopened, ?_⟩
  rcases ht.stops with heof | hclose
  · -- the block is not closed
    have hpast := ParserState.levelPast_eq (s := t) (by rw [heof]; rfl)
    obtain ⟨hsame, hlevel⟩ | ⟨hup, hlevel⟩ := ht.verdict
    · have hopen : t.window.current.kind ≠ .rbrace := by simp [heof]
      refine .inr ⟨⟨cause, t, ?_⟩, by omega⟩
      exact (bind_of_ok hsame).trans (congrFun (if_neg hopen) t)
    · exact .inr ⟨hgivesUp hup, by omega⟩
  · have hclose := List.mem_singleton.1 hclose
    have hpast := ParserState.level_of_rbrace ht.last hclose
    obtain ⟨hsame, hlevel⟩ | ⟨hup, hlevel⟩ := ht.verdict
    · refine .inl ⟨?_, by omega⟩
      exact (bind_of_ok hsame).trans (congrFun (if_pos hclose) t)
    · exact .inr ⟨hgivesUp hup, by omega⟩

theorem blockWith_vets (h : PartsVet careful parts) :
    Vets (expect .lbrace >>= fun _ => blockCarefully cause careful)
      (expect .lbrace >>= fun _ => blockWith parts) := by
  refine fun s hs => .expect hs fun hbrace => ?_
  exact blockWith_judged cause h (s := s.advance) hs.last hbrace

end Blocks

/-- **A careful parser vets the parser of the same depth.** -/
theorem partsVet_careful (cause : Abort) : ∀ depth : Nat,
    PartsVet (.careful cause depth) (.upTo .standard depth)
  | 0 => ⟨fun _ _ _ => True.intro, fun _ hs => .expect hs fun _ => True.intro⟩
  | depth + 1 => ⟨fun threshold => .expressionWith (partsVet_careful cause depth) threshold,
      blockWith_vets cause (partsVet_careful cause depth)⟩

/-- **A block ends at its own closing brace, unless a dropped statement changes the level.**  In a text
with balanced braces every opening brace has one that closes it.  Entered on the opening brace, the
parser reads a block, whatever is wrong with the statements in it, and ends at a closing brace that is
not behind the block's own.

If no other block is inside, then this is the block's own.  If there are any, then it is the block's own
just if the careful parser reads the same block, and does not give up over a statement, in the block
or in those inside it, that is dropped and opens more blocks than it closes. -/
theorem blockWith_ends {source : String} (hbalanced : Balanced (Token.scan source.toList))
    (hlegible : ∀ token ∈ Token.scan source.toList,
      token.kind = .int → token.literal.length ≤ digitLimit)
    {front rest : List Token} {brace : Token}
    (htokens : Token.scan source.toList = front ++ brace :: rest) (hbrace : brace.kind = .lbrace)
    {depth : Nat} (hdepth : rest.length < depth) (diagnostics : List Diagnostic) :
    let start : ParserState := ⟨⟨brace :: rest, Token.endOf source.toList⟩, diagnostics⟩
    ∃ inside close behind, rest = inside ++ close :: behind ∧ close.kind = .rbrace ∧
      Balanced inside ∧ ∃ found after,
        blockWith (.upTo .standard depth) start = .ok found after ∧
        after.window.current.kind = .rbrace ∧ close :: behind <:+ after.window.ahead ∧
        ((∀ token ∈ inside, token.kind ≠ .lbrace) → after.window.ahead = close :: behind) ∧
        ∀ cause,
          after.window.ahead = close :: behind ∧
              blockCarefully cause (.careful cause depth) start = .ok found after ∨
            after.window.ahead ≠ close :: behind ∧
              GivesUp (blockCarefully cause (.careful cause depth) start) := by
  intro start
  rw [htokens] at hbalanced
  obtain ⟨inside, close, behind, rfl, hclose, hinside⟩ := hbalanced.exists_close hbrace
  have hmem : ∀ token ∈ brace :: (inside ++ close :: behind), token ∈ Token.scan source.toList :=
    fun token htoken => htokens ▸ List.mem_append_right front htoken
  have hready : start.Ready (depth + 1) :=
    ⟨Nat.succ_lt_succ hdepth, rfl, fun token htoken =>
      Token.legible_of_mem_scan (hmem token htoken) (hlegible token (hmem token htoken))⟩
  obtain ⟨found, after, skipped, inner, hrun, hlast, hkind, rfl, hahead⟩ :=
    exists_block_within hready rfl hbrace hclose hinside fun token htoken =>
      (Token.proper_of_mem_scanFrom (hmem token
        (List.mem_cons_of_mem _ (List.mem_append_left _ htoken)))).eof
  have hown (hlevel : 0 ≤ surplus skipped) : after.window.ahead = close :: behind := by
    rw [hahead, hinside.rest_eq_nil (fun token htoken => ?_) hlevel, List.nil_append]
    have hfirst : token ∈ after.window.ahead.head? := by
      rw [hahead, List.head?_append, htoken]
      rfl
    rwa [Seam.current_of_head? hfirst] at hkind
  have hwhole := (balanced_iff_surplus.1 hinside).1
  refine ⟨skipped ++ inner, close, behind, rfl, hclose, hinside, found, after, hrun, hkind,
    ⟨inner, hahead.symm⟩, fun hnone => hown ?_, fun cause => ?_⟩
  · exact surplus_nonneg fun token htoken => hnone token (List.mem_append_left _ htoken)
  · have hstart : start.level = surplus behind := by
      rw [ParserState.level, surplus_lbrace hbrace, surplus_append, surplus_rbrace hclose, hwhole]
      omega
    have hjudged := blockWith_judged cause (partsVet_careful cause depth) (s := start) rfl hbrace
    unfold Judged Meets at hjudged
    rw [hrun, hstart] at hjudged
    obtain ⟨-, ⟨hcareful, hpast⟩ | ⟨hup, hhigher⟩⟩ := hjudged
    · have hlevel := ParserState.level_of_rbrace (hlast ▸ rfl) hkind
      rw [hpast, ParserState.level, hahead, surplus_append, surplus_rbrace hclose] at hlevel
      rw [surplus_append] at hwhole
      exact .inl ⟨hown (by omega), hcareful⟩
    · refine .inr ⟨fun hends => ?_, hup⟩
      rw [ParserState.levelPast, hends, List.tail_cons] at hhigher
      omega

/-- A binding without a name and an operator without an operand are dropped, and between them stands
another block. -/
theorem blockWith_ends_recovered :
    let source := "if (t) \x7b let 5; f(fn() \x7b a \x7d); 1 + \x7d b"
    let brace : Token := ⟨.lbrace, "\x7b", ⟨1, 8⟩⟩
    let front := (Token.scan source.toList).take 4
    let rest := (Token.scan source.toList).drop 5
    let start : ParserState := ⟨⟨brace :: rest, Token.endOf source.toList⟩, []⟩
    Balanced (Token.scan source.toList) ∧
      (∀ token ∈ Token.scan source.toList, token.kind = .int → token.literal.length ≤ digitLimit) ∧
      Token.scan source.toList = front ++ brace :: rest ∧ brace.kind = .lbrace ∧ rest.length < 20 ∧
      ∃ inside close behind, rest = inside ++ close :: behind ∧ close.kind = .rbrace ∧
        Balanced inside ∧ ∃ found after, blockWith (.upTo .standard 20) start = .ok found after ∧
          after.window.ahead = close :: behind := by
  intro source brace front rest start
  have hbalanced : Balanced (Token.scan source.toList) := by decide +kernel
  have hlegible : ∀ token ∈ Token.scan source.toList,
      token.kind = .int → token.literal.length ≤ digitLimit := by decide +kernel
  have htokens : Token.scan source.toList = front ++ brace :: rest := by decide +kernel
  have hdepth : rest.length < 20 := by decide +kernel
  have hcareful : ¬GivesUp (blockCarefully .endless (.careful .endless 20) start) := by
    decide +kernel
  obtain ⟨inside, close, behind, hrest, hclose, hinside, found, after, hrun, -, -, -, hends⟩ :=
    blockWith_ends hbalanced hlegible htokens rfl hdepth []
  exact ⟨hbalanced, hlegible, htokens, rfl, hdepth, inside, close, behind, hrest, hclose, hinside,
    found, after, hrun, ((hends .endless).resolve_right fun hup => hcareful hup.2).1⟩

/-- The call is given up behind the function, on the brace that closes its body.  There the block ends. -/
example :
    let source := "\x7b f(fn() \x7b a \x7d b) \x7d c"
    let start : ParserState := { window := .ofSource source }
    GivesUp (blockCarefully .endless (.careful .endless 20) start) ∧
      (settle (blockWith (.upTo .standard 20)) start).2.window.ahead.map (·.literal) =
        ["\x7d", "b", ")", "\x7d", "c"] := by
  decide +kernel

end Parser

end MonkeyLang
