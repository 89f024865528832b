import MonkeyLang.Proofs.Parsing.Termination
import MonkeyLang.Proofs.Parsing.Twins

/-!
# Parsing one text behind another

If the braces of a text are balanced and its last token is a semicolon, then another text behind it
is parsed as if it stood alone: the statements are those of the first text and behind them those of
the second, and so are the diagnostics (`parse_append`).  It does not matter how many statements of
the first text are malformed.

Skipping over a malformed statement takes no account of braces, so the parser may take the end of an
inner block for that of an outer one.  The invariant is that at every place there are at least as many
closing braces left in the text as blocks are open (`Enclosed`).  So every block ends in the text, and
the last semicolon ends the last statement.
-/

set_option autoImplicit false

namespace MonkeyLang

/-! ## Enclosed text -/

/-- How many blocks are opened by some tokens. -/
def opened (tokens : List Token) : Nat :=
  tokens.countP fun token => token.kind = .lbrace

/-- How many blocks are closed by some tokens. -/
def closed (tokens : List Token) : Nat :=
  tokens.countP fun token => token.kind = .rbrace

/-- The tokens close as many blocks as are open in front of them, and a semicolon is at their end. -/
structure Enclosed (blocks : Nat) (tokens : List Token) : Prop where
  last : ∃ token ∈ tokens.getLast?, token.kind = .semicolon
  proper : ∀ token ∈ tokens, token.kind ≠ .eof
  balanced : ∀ rest, rest <:+ tokens → opened rest ≤ closed rest
  enough : opened tokens + blocks ≤ closed tokens

namespace Enclosed

variable {blocks blocks' : Nat} {token : Token} {rest tokens : List Token}

theorem ne_nil (h : Enclosed blocks tokens) : tokens ≠ [] := by
  rintro rfl
  obtain ⟨_, ⟨⟩, _⟩ := h.last

theorem exists_cons (h : Enclosed blocks tokens) : ∃ first others, tokens = first :: others :=
  List.exists_cons_of_ne_nil h.ne_nil

theorem mono (h : Enclosed blocks tokens) (hle : blocks' ≤ blocks) : Enclosed blocks' tokens :=
  ⟨h.last, h.proper, h.balanced, Nat.le_trans (Nat.add_le_add_left hle _) h.enough⟩

/-- Behind any token but the last one, the text is enclosed by as many blocks as it closes. -/
theorem of_cons (h : Enclosed blocks (token :: rest)) (hrest : rest ≠ [])
    (henough : opened rest + blocks' ≤ closed rest) : Enclosed blocks' rest := by
  refine ⟨?_, fun other hother => h.proper other (List.mem_cons_of_mem _ hother),
    fun others hothers => h.balanced others (hothers.trans (List.suffix_cons _ _)), henough⟩
  obtain ⟨last, hlast, hkind⟩ := h.last
  obtain ⟨second, others, rfl⟩ := List.exists_cons_of_ne_nil hrest
  exact ⟨last, hlast, hkind⟩

/-- If a token is the last one, then it is a semicolon. -/
theorem rest_ne_nil (h : Enclosed blocks (token :: rest)) (hkind : token.kind ≠ .semicolon) :
    rest ≠ [] := by
  rintro rfl
  obtain ⟨last, ⟨⟩, hlast⟩ := h.last
  exact hkind hlast

/-- Behind a token, at the level of the whole text, is the end of the text or enclosed text. -/
theorem tail_zero (h : Enclosed blocks (token :: rest)) : rest = [] ∨ Enclosed 0 rest := by
  by_cases hrest : rest = []
  · exact .inl hrest
  · exact .inr (h.of_cons hrest (h.balanced rest (List.suffix_cons _ _)))

theorem opened_cons : opened (token :: rest) =
    opened rest + if token.kind = .lbrace then 1 else 0 := by
  rw [opened, opened, List.countP_cons]
  simp

theorem closed_cons : closed (token :: rest) =
    closed rest + if token.kind = .rbrace then 1 else 0 := by
  rw [closed, closed, List.countP_cons]
  simp

/-- A closing brace leaves a block, an opening one enters another. -/
theorem pass (h : Enclosed blocks (token :: rest)) (hrest : rest ≠ [])
    (hle : blocks' + (if token.kind = .rbrace then 1 else 0) ≤
      blocks + if token.kind = .lbrace then 1 else 0) : Enclosed blocks' rest := by
  have henough := h.enough
  rw [opened_cons, closed_cons] at henough
  exact h.of_cons hrest (by omega)

theorem next (h : Enclosed blocks (token :: rest)) (hinner : token.kind.isInner = true) :
    Enclosed blocks rest := by
  have hkinds : token.kind ≠ .semicolon ∧ token.kind ≠ .lbrace ∧ token.kind ≠ .rbrace := by
    refine ⟨?_, ?_, ?_⟩ <;>
    · intro hkind
      simp [hkind] at hinner
  exact h.pass (h.rest_ne_nil hkinds.1) (by simp [hkinds])

theorem enter (h : Enclosed blocks (token :: rest)) (hkind : token.kind = .lbrace) :
    Enclosed (blocks + 1) rest :=
  h.pass (h.rest_ne_nil (by simp [hkind])) (by simp [hkind])

theorem leave (h : Enclosed (blocks + 1) (token :: rest)) (hkind : token.kind = .rbrace) :
    Enclosed blocks rest :=
  h.pass (h.rest_ne_nil (by simp [hkind])) (by simp [hkind])

/-- A semicolon inside a block is not the last token. -/
theorem goOn (h : Enclosed (blocks + 1) (token :: rest)) (hkind : token.kind = .semicolon) :
    Enclosed (blocks + 1) rest := by
  refine h.pass (fun hnil => ?_) (by simp [hkind])
  have henough := h.enough
  rw [opened_cons, closed_cons, hnil] at henough
  simp [hkind, opened, closed] at henough

/-- What is skipped stops inside the text. -/
theorem dropWhile {p : Token → Bool}
    (hstep : ∀ token rest, Enclosed blocks (token :: rest) → p token = true →
      Enclosed blocks rest) : ∀ {tokens : List Token}, Enclosed blocks tokens →
    Enclosed blocks (tokens.dropWhile p) ∧
      ∀ behind, (tokens ++ behind).dropWhile p = tokens.dropWhile p ++ behind
  | [], h => absurd rfl h.ne_nil
  | token :: rest, h => by
    cases hskip : p token with
    | true =>
      have hrest := dropWhile hstep (hstep token rest h hskip)
      rw [List.dropWhile_cons_of_pos hskip]
      refine ⟨hrest.1, fun behind => ?_⟩
      rw [List.cons_append, List.dropWhile_cons_of_pos hskip]
      exact hrest.2 behind
    | false =>
      have hstop : ¬p token = true := by
        rw [hskip]
        decide
      rw [List.dropWhile_cons_of_neg hstop]
      refine ⟨h, fun behind => ?_⟩
      rw [List.cons_append, List.dropWhile_cons_of_neg hstop]

/-- Skipping inside a block stops at a semicolon or a closing brace. -/
theorem skip (h : Enclosed blocks tokens) :
    let skipped : Token → Bool :=
      fun token => !(token.kind = .semicolon || token.kind ∈ [TokenKind.rbrace])
    Enclosed blocks (tokens.dropWhile skipped) ∧
      ∀ behind, (tokens ++ behind).dropWhile skipped = tokens.dropWhile skipped ++ behind := by
  refine h.dropWhile fun token rest h hskip => ?_
  simp only [Bool.not_eq_true', Bool.or_eq_false_iff, decide_eq_false_iff_not,
    List.mem_singleton] at hskip
  exact h.pass (h.rest_ne_nil hskip.1) (by simp [hskip.2])

/-- Skipping at the level of the whole text stops at a semicolon. -/
theorem skip_zero (h : Enclosed 0 tokens) :
    let skipped : Token → Bool :=
      fun token => !(token.kind = .semicolon || token.kind ∈ ([] : List TokenKind))
    Enclosed 0 (tokens.dropWhile skipped) ∧
      ∀ behind, (tokens ++ behind).dropWhile skipped = tokens.dropWhile skipped ++ behind := by
  refine h.dropWhile fun token rest h hskip => h.tail_zero.resolve_left (h.rest_ne_nil ?_)
  simpa using hskip

end Enclosed

/-! ## The two seams -/

theorem Token.map_mapPlace_id (tokens : List Token) : tokens.map (Token.mapPlace id) = tokens :=
  List.map_id tokens

theorem Diagnostic.map_mapPlace_id (diagnostics : List Diagnostic) :
    diagnostics.map (Diagnostic.mapPlace id) = diagnostics :=
  List.map_id diagnostics

namespace Seam

/-- The seam between enclosed text and what stands behind it, up to another end.  The places are the
same. -/
def enclosed (behind : List Token) (finish : Token) : Seam where
  place := id
  behind := behind
  prior := []
  lasts last last' := last.kind = .eof ∧ last' = finish
  inside := Enclosed

theorem lawful_enclosed (behind : List Token) (finish : Token) :
    (enclosed behind finish).Lawful where
  seen := by
    intro blocks tokens last last' h _
    obtain ⟨first, others, rfl⟩ := Enclosed.exists_cons h
    rfl
  tail := by
    intro blocks tokens h
    obtain ⟨first, others, rfl⟩ := Enclosed.exists_cons h
    rfl
  next := by
    intro blocks tokens h hkind
    obtain ⟨first, others, rfl⟩ := Enclosed.exists_cons h
    exact Enclosed.next h (hkind _ rfl)
  opens := by
    intro blocks tokens h hkind
    obtain ⟨first, others, rfl⟩ := Enclosed.exists_cons h
    exact Enclosed.enter h (hkind _ rfl)
  closes := by
    intro blocks tokens h hkind
    obtain ⟨first, others, rfl⟩ := Enclosed.exists_cons h
    have heof := Enclosed.proper h first List.mem_cons_self
    exact ⟨Enclosed.mono h (Nat.le_succ _),
      Enclosed.leave h ((hkind _ rfl).resolve_right heof)⟩
  staying blocks :=
    { ends := by
        intro tokens h hkind
        obtain ⟨first, others, rfl⟩ := Enclosed.exists_cons h
        exact Enclosed.goOn h (hkind _ rfl)
      skips := by
        intro tokens h
        obtain ⟨hkept, hbehind⟩ := Enclosed.skip h
        refine ⟨hkept, ?_⟩
        rw [show (enclosed behind finish).token = Token.mapPlace id from rfl, Token.map_mapPlace_id,
          Token.map_mapPlace_id]
        exact hbehind behind }

/-- The state in the longer text has what stands behind at its end, and nothing else differs. -/
theorem at_enclosed {behind : List Token} {finish : Token} {blocks : Nat} {s t : ParserState} :
    (enclosed behind finish).At blocks s t ↔ Enclosed blocks s.window.ahead ∧
      s.window.last.kind = .eof ∧ t = ⟨⟨s.window.ahead ++ behind, finish⟩, s.diagnostics⟩ := by
  constructor
  · rintro ⟨hinside, hahead, ⟨hlast, hfinish⟩, hdiagnostics⟩
    obtain ⟨⟨ahead, last⟩, diagnostics⟩ := t
    have hahead : ahead = s.window.ahead ++ behind :=
      hahead.trans (congrArg (· ++ behind) (Token.map_mapPlace_id _))
    have hdiagnostics : diagnostics = s.diagnostics :=
      hdiagnostics.trans (Diagnostic.map_mapPlace_id _)
    have hfinish : last = finish := hfinish
    rw [hahead, hfinish, hdiagnostics]
    exact ⟨hinside, hlast, rfl⟩
  · rintro ⟨hinside, hlast, rfl⟩
    refine ⟨hinside, ?_, ⟨hlast, rfl⟩, (Diagnostic.map_mapPlace_id _).symm⟩
    exact (congrArg (· ++ behind) (Token.map_mapPlace_id _)).symm

/-- The text in itself, shifted, with some diagnostics before its own. -/
def shifted (start : Position) (prior : List Diagnostic) : Seam where
  place := start.shift
  behind := []
  prior := prior
  lasts last last' := last' = last.mapPlace start.shift
  inside _ _ := True

theorem staying_shifted (start : Position) (prior : List Diagnostic) (closing : List TokenKind)
    (blocks : Nat) : (shifted start prior).Staying closing blocks where
  ends _ _ := True.intro
  skips := by
    intro tokens _
    refine ⟨True.intro, ?_⟩
    rw [show (shifted start prior).behind = [] from rfl, List.append_nil, List.append_nil,
      List.dropWhile_map]
    rfl

theorem lawful_shifted (start : Position) (prior : List Diagnostic) :
    (shifted start prior).Lawful where
  seen := by
    rintro blocks (_ | ⟨first, others⟩) last last' _ hlast
    · exact hlast
    · rfl
  tail := by
    rintro blocks (_ | ⟨first, others⟩) _ <;> rfl
  next _ _ := True.intro
  opens _ _ := True.intro
  closes _ _ := ⟨True.intro, True.intro⟩
  staying blocks := staying_shifted start prior _ _

end Seam

/-! ## Behind the end of the text -/

namespace Parser

variable {parts parts' : Parts}

/-- No fault in a statement is a fault of the list.  It is read up to a token that ends it, or to the end
of the text. -/
theorem statementsWith_stops (closing : List TokenKind) : ∀ (rounds : Nat) (s : ParserState),
    (statementsWith parts closing rounds).Meets s
      (fun _ t => t.window.current.kind = .eof ∨ t.window.current.kind ∈ closing) (fun _ _ => False)
      fun _ => True
  | 0, _ => True.intro
  | rounds + 1, s => by
    rw [statementsWith, meets_bind, meets_current, meets_ite]
    refine ⟨fun hstop => (meets_pure _).2 (by simpa using hstop), fun _ => ?_⟩
    rw [meets_bind, meets_attempt]
    refine Meets.mono (Gives.trivial (statement parts) s) (fun first t _ => ?_) (fun d t _ => ?_)
      fun _ => id
    · simp only [meets_bind, meets_advance, meets_pure]
      exact statementsWith_stops closing rounds _
    · simp only [meets_bind, meets_skipTo, meets_current, meets_ite, meets_advance, meets_pure]
      exact ⟨.inr, fun _ => statementsWith_stops closing rounds _⟩

theorem statementsWith_run (closing : List TokenKind) (rounds : Nat) (s : ParserState) :
    (statementsWith parts closing rounds).Meets s
      (fun trees t => statementsWith parts closing rounds s = .ok trees t) (fun _ _ => False)
      fun _ => True :=
  ((statementsWith_stops closing rounds s).and (.run _ s)).mono (fun _ _ h => h.2) (fun _ _ h => h.1)
    fun _ _ => True.intro

/-- With a tame grammar the parser of whole texts comes to the end of the text, if it can read the
tokens. -/
theorem exists_program_of_tame {grammar : Grammar} (hgrammar : grammar.Tame) {window : TokenStream}
    (hlast : window.last.kind = .eof) (hlegible : ∀ token ∈ window.ahead, token.Legible) :
    ∃ trees after, program grammar { window } = .ok trees after ∧ after.window.current.kind = .eof ∧
      ParserState.Later { window } after := by
  have hends := @program_meets _ hgrammar { window } hlast hlegible
  have hstops : (program grammar).Meets { window } (fun _ after => after.window.current.kind = .eof)
      (fun _ _ => False) fun _ => True := by
    simp only [program, withParts, meets_bind, meets_remaining]
    exact (statementsWith_stops [] _ _).mono (fun _ _ hstop => hstop.resolve_right List.not_mem_nil)
      (fun _ _ => id) fun _ => id
  have hboth := hstops.and hends
  unfold Meets at hboth
  cases hrun : program grammar { window } with
  | ok trees after =>
    rw [hrun] at hboth
    exact ⟨trees, after, rfl, hboth⟩
  | error stop after =>
    rw [hrun] at hboth
    cases stop with
    | malformed diagnostic => exact hboth.1.elim
    | abort cause => exact hboth.2.elim

variable {behind : List Token} {finish : Token}

/-- Inside enclosed text the statements are the same. -/
theorem attempt_tandem (h : (Seam.enclosed behind finish).PartsTwins parts parts')
    {s t : ParserState} (h' : (Seam.enclosed behind finish).At 0 s t) :
    Tandem (attempt (statement parts)) (attempt (statement parts')) s t
      (fun a b s' t' => b = a ∧ (Seam.enclosed behind finish).At 0 s' t')
      fun _ _ _ _ => False := by
  have lawful := Seam.lawful_enclosed behind finish
  refine .attempt ((statement_tandem lawful h h').mono (fun a b u v huv => ?_) fun d e u v huv => ?_)
  · obtain ⟨rfl, hat, -⟩ := huv
    exact ⟨congrArg some a.mapTokens_id, hat⟩
  · obtain ⟨rfl, hat⟩ := huv
    exact ⟨rfl, hat.record d⟩

/-- After the statements of enclosed text the parser goes on with what stands behind, as if it
started there. -/
theorem statementsWith_append (h : (Seam.enclosed behind finish).PartsTwins parts parts') :
    ∀ (rounds rounds' : Nat) {tokens : List Token} {last : Token} {diagnostics : List Diagnostic},
    last.kind = .eof → tokens = [] ∨ Enclosed 0 tokens →
    Tandem (statementsWith parts [] rounds) (statementsWith parts' [] rounds')
      ⟨⟨tokens, last⟩, diagnostics⟩ ⟨⟨tokens ++ behind, finish⟩, diagnostics⟩
      (fun trees trees' s' t' => ∃ rounds rest, trees' = trees ++ rest ∧
        statementsWith parts' [] rounds ⟨⟨behind, finish⟩, s'.diagnostics⟩ = .ok rest t')
      fun _ _ _ _ => False
  | 0, _, _, _, _, _, _ => .giveUp_left _
  | _ + 1, 0, _, _, _, _, _ => .giveUp_right _
  | rounds + 1, rounds' + 1, _, last, diagnostics, hlast, .inl rfl => by
    -- here the first list ends, and the second one goes on
    rw [Tandem, statementsWith, meets_bind, meets_current, meets_ite]
    have hstop : (last.kind = .eof || last.kind ∈ ([] : List TokenKind)) = true := by
      rw [hlast]
      rfl
    refine ⟨fun _ => ?_, fun hopen => absurd hstop hopen⟩
    exact (statementsWith_run [] (rounds' + 1) _).mono
      (fun rest t' hrun => ⟨rounds' + 1, rest, rfl, hrun⟩) (fun _ _ => id) fun _ => id
  | rounds + 1, rounds' + 1, tokens, last, diagnostics, hlast, .inr hinside => by
    have hat : (Seam.enclosed behind finish).At 0 ⟨⟨tokens, last⟩, diagnostics⟩
        ⟨⟨tokens ++ behind, finish⟩, diagnostics⟩ := Seam.at_enclosed.2 ⟨hinside, hlast, rfl⟩
    -- behind every statement, dropped or not, the rest of the text is enclosed or empty
    have next : ∀ {u v : ParserState}, (Seam.enclosed behind finish).At 0 u v →
        Tandem (statementsWith parts [] rounds) (statementsWith parts' [] rounds')
          u.advance v.advance
          (fun trees trees' s' t' => ∃ rounds rest, trees' = trees ++ rest ∧
            statementsWith parts' [] rounds ⟨⟨behind, finish⟩, s'.diagnostics⟩ = .ok rest t')
          fun _ _ _ _ => False := by
      intro u v huv
      obtain ⟨hkept, hend, rfl⟩ := Seam.at_enclosed.1 huv
      obtain ⟨⟨ahead, last⟩, notes⟩ := u
      obtain ⟨first, others, rfl⟩ := hkept.exists_cons
      exact statementsWith_append h rounds rounds' hend hkept.tail_zero
    refine twins_current (Seam.lawful_enclosed behind finish) hat (.ite Iff.rfl (fun hstop => ?_)
      fun _ => .bind (attempt_tandem h hat) fun _ first u v huv => ?_)
    · -- the text is not at its end
      obtain ⟨first, others, rfl⟩ := hinside.exists_cons
      simp only [Bool.or_eq_true, decide_eq_true_eq, List.not_mem_nil, or_false] at hstop
      exact absurd hstop (hinside.proper first List.mem_cons_self)
    · obtain ⟨rfl, huv⟩ := huv
      cases first with
      | some first =>
        refine twins_advance (.bind (next huv) fun rest rest' s' t' hrest => ?_)
        obtain ⟨rounds'', others, rfl, hrun⟩ := hrest
        exact .pure ⟨rounds'', others, rfl, hrun⟩
      | none =>
        obtain ⟨hkept, hend, rfl⟩ := Seam.at_enclosed.1 huv
        obtain ⟨hskipped, hahead⟩ := hkept.skip_zero
        have hskip : (Seam.enclosed behind finish).At 0 (u.skip [])
            (ParserState.skip [] ⟨⟨u.window.ahead ++ behind, finish⟩, u.diagnostics⟩) := by
          refine Seam.at_enclosed.2 ⟨hskipped, hend, ?_⟩
          rw [ParserState.skip, hahead behind]
          rfl
        exact twins_skipTo (next hskip)

/-- A text of legible tokens is parsed to its end, as one list of statements. -/
theorem exists_run {window : TokenStream} (hlast : window.last.kind = .eof)
    (hlegible : ∀ token ∈ window.ahead, token.Legible) :
    ∃ depth rounds trees after,
      statementsWith (.upTo .standard depth) [] rounds ⟨window, []⟩ = .ok trees after ∧
      parseTokens window = .ok ⟨trees, after.diagnostics⟩ := by
  obtain ⟨trees, after, hprogram, -⟩ := exists_program_of_tame Grammar.tame_standard hlast hlegible
  refine ⟨_, _, trees, after, hprogram, ?_⟩
  rw [parseTokens, settle, hprogram]
  rfl

end Parser

/-! ## Balanced texts -/

/-- Blocks are only closed where they are open, and all of them are closed at the end. -/
structure Balanced (tokens : List Token) : Prop where
  front : ∀ front, front <+: tokens → closed front ≤ opened front
  whole : opened tokens = closed tokens

theorem balanced_iff {tokens : List Token} : Balanced tokens ↔
    (∀ count < tokens.length + 1, closed (tokens.take count) ≤ opened (tokens.take count)) ∧
      opened tokens = closed tokens := by
  constructor
  · intro h
    exact ⟨fun count _ => h.front _ (List.take_prefix count tokens), h.whole⟩
  · rintro ⟨hfront, hwhole⟩
    refine ⟨fun front h => ?_, hwhole⟩
    have hcount := hfront front.length (Nat.lt_succ_of_le h.length_le)
    rw [← List.prefix_iff_eq_take.1 h] at hcount
    exact hcount

instance : DecidablePred Balanced := fun _ => decidable_of_iff _ balanced_iff.symm

theorem Balanced.enclosed {tokens : List Token} (h : Balanced tokens)
    (hlast : ∃ token ∈ tokens.getLast?, token.kind = .semicolon)
    (hproper : ∀ token ∈ tokens, token.kind ≠ .eof) : Enclosed 0 tokens := by
  refine ⟨hlast, hproper, ?_, Nat.le_of_eq h.whole⟩
  rintro rest ⟨front, rfl⟩
  have hfront := h.front front (List.prefix_append _ _)
  have hwhole := h.whole
  rw [opened, closed, List.countP_append, List.countP_append] at hwhole
  rw [opened, closed] at hfront ⊢
  omega

/-- A scanned integer that is not too long is legible. -/
theorem Token.legible_of_mem_scan {text : List Char} {token : Token} (h : token ∈ scan text)
    (hlength : token.kind = .int → token.literal.length ≤ digitLimit) : token.Legible := by
  intro hkind
  obtain ⟨hne, hdigits⟩ := (proper_of_mem_scanFrom h).integer hkind
  exact ⟨hne, hdigits, hlength hkind⟩

/-- The tokens of a text with another one behind it. -/
theorem TokenStream.ofSource_append {a : String} (b : String)
    (hlast : ∃ token ∈ (Token.scan a.toList).getLast?, token.kind = .semicolon) :
    let shift := (Position.afterAll {} a.toList).shift
    ofSource (a ++ b) = ⟨Token.scan a.toList ++ (Token.scan b.toList).map (Token.mapPlace shift),
      (Token.endOf b.toList).mapPlace shift⟩ := by
  obtain ⟨last, hmem, hkind⟩ := hlast
  rw [ofSource, String.toList_append, Token.endOf_append, Token.scan_append]
  intro token htoken
  rw [Option.mem_unique htoken hmem]
  exact hkind

/-- **Behind balanced text that ends with a semicolon, parsing starts afresh.** -/
theorem parse_append {a b : String}
    (hlast : ∃ token ∈ (Token.scan a.toList).getLast?, token.kind = .semicolon)
    (hbalanced : Balanced (Token.scan a.toList))
    (ha : ∀ token ∈ Token.scan a.toList, token.kind = .int → token.literal.length ≤ digitLimit)
    (hb : ∀ token ∈ Token.scan b.toList, token.kind = .int → token.literal.length ≤ digitLimit) :
    let shift := (Position.afterAll {} a.toList).shift
    ∃ first second, parse a = .ok first ∧ parse b = .ok second ∧
      parse (a ++ b) = .ok
        ⟨first.statements ++ Node.mapTokensAll (Token.mapPlace shift) second.statements,
          first.diagnostics ++ second.diagnostics.map (·.mapPlace shift)⟩ := by
  intro shift
  have hscan := TokenStream.ofSource_append b hlast
  have hlegible : ∀ token ∈ (TokenStream.ofSource (a ++ b)).ahead, token.Legible := by
    intro token htoken
    rw [hscan] at htoken
    rcases List.mem_append.1 htoken with htoken | htoken
    · exact Token.legible_of_mem_scan htoken (ha token htoken)
    · obtain ⟨original, horiginal, rfl⟩ := List.mem_map.1 htoken
      have horiginal := Token.legible_of_mem_scan horiginal (hb original horiginal)
      exact horiginal
  obtain ⟨depth, rounds, trees, after, hfirst, hparse⟩ :=
    @Parser.exists_run (.ofSource a) rfl fun token htoken =>
      Token.legible_of_mem_scan htoken (ha token htoken)
  obtain ⟨depth', rounds', trees', after', hsecond, hparse'⟩ :=
    @Parser.exists_run (.ofSource b) rfl fun token htoken =>
      Token.legible_of_mem_scan htoken (hb token htoken)
  obtain ⟨depth'', rounds'', trees'', after'', hboth, hparse''⟩ :=
    @Parser.exists_run (.ofSource (a ++ b)) rfl hlegible
  refine ⟨_, _, hparse, hparse', hparse''.trans ?_⟩
  -- the joined text up to the seam, and what is left of it there
  have henclosed := hbalanced.enclosed hlast (TokenStream.ended_ofSource a).ahead
  rw [hscan] at hboth
  obtain ⟨rounds, rest, rfl, hrest⟩ := Parser.Tandem.of_ok (Parser.statementsWith_append
    (Parser.twins_upTo (Seam.lawful_enclosed _ _) depth depth'') rounds rounds'' rfl
    (.inr henclosed)) hfirst hboth
  -- what is left is the second text, shifted
  let seam := Seam.shifted (Position.afterAll {} a.toList) after.diagnostics
  have lawful : seam.Lawful := Seam.lawful_shifted _ _
  have hat : seam.At 0 ⟨.ofSource b, []⟩ ⟨⟨(Token.scan b.toList).map (Token.mapPlace shift),
      (Token.endOf b.toList).mapPlace shift⟩, after.diagnostics⟩ :=
    ⟨True.intro, (List.append_nil _).symm, rfl, (List.append_nil _).symm⟩
  obtain ⟨rfl, hdone, -⟩ := Parser.Tandem.of_ok (Parser.statementsWith_tandem lawful
    (Parser.twins_upTo lawful depth' depth'') (Seam.staying_shifted _ _ [] 0) rounds' rounds hat)
    hsecond hrest
  rw [hdone.diagnostics]
  rfl

/-- The first text has a binding without a sign, and in a block a parenthesis that opens nothing. -/
theorem parse_append_malformed :
    let a := "let x 1; if (t) \x7b y ) \x7d z;"
    let b := "u; )"
    let shift := (Position.afterAll {} a.toList).shift
    (∃ token ∈ (Token.scan a.toList).getLast?, token.kind = .semicolon) ∧
      Balanced (Token.scan a.toList) ∧
      (∀ token ∈ Token.scan a.toList, token.kind = .int → token.literal.length ≤ digitLimit) ∧
      (∀ token ∈ Token.scan b.toList, token.kind = .int → token.literal.length ≤ digitLimit) ∧
      ∃ first second, parse a = .ok first ∧ parse b = .ok second ∧
        parse (a ++ b) = .ok
          ⟨first.statements ++ Node.mapTokensAll (Token.mapPlace shift) second.statements,
            first.diagnostics ++ second.diagnostics.map (·.mapPlace shift)⟩ := by
  intro a b shift
  have hlast : ∃ token ∈ (Token.scan a.toList).getLast?, token.kind = .semicolon :=
    ⟨⟨.semicolon, ";", ⟨1, 26⟩⟩, by decide +kernel, rfl⟩
  have hbalanced : Balanced (Token.scan a.toList) := by decide +kernel
  have ha : ∀ token ∈ Token.scan a.toList,
      token.kind = .int → token.literal.length ≤ digitLimit := by decide +kernel
  have hb : ∀ token ∈ Token.scan b.toList,
      token.kind = .int → token.literal.length ≤ digitLimit := by decide +kernel
  exact ⟨hlast, hbalanced, ha, hb, parse_append hlast hbalanced ha hb⟩

end MonkeyLang
