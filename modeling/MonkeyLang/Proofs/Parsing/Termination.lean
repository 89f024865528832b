import MonkeyLang.Proofs.Parsing.Forward

/-!
# Parsing comes to an end

The parsers count their rounds and their depth, and a count that is used up would give the parse up.
It never is: every round of every loop and every nesting of a construct reads a token.  So a parse is
only given up for an integer that cannot be read, and not at all if all integer tokens are *legible*,
which means that they consist of digits and of no more than can be read at all.

The reasons to give up that are allowed are a property `lost` throughout.  It has to hold of the lengths of
the integers that are too long (`Token.Readable`); if there are none, it may be false of everything.

* `ParserState.Bounded` bounds the tokens that are left, and says that they are readable.
  `ParserState.Ready` says that they are legible.
* `Parser.Enters` is about a construct that is entered on its first token: from there on the bound
  is one smaller, since the first thing that the construct does is to consume that token.
* `Parser.finite_upTo` closes the circle: parsers of some depth never give up as long as fewer tokens
  than that are left.  It holds of all tables in which the end of the text opens no expression and
  integers are read from integer tokens (`Grammar.Tame`).
* `Parser.program_ends` is the parse of a whole text, and `parseTokens_isOk` its outcome if all is legible.
-/

set_option autoImplicit false

namespace MonkeyLang

/-! ## Legible tokens -/

/-- A token can be read: if it is an integer, it consists of digits, and not of too many. -/
def Token.Legible (token : Token) : Prop :=
  token.kind = .int → token.literal.toList ≠ [] ∧
    (∀ c ∈ token.literal.toList, Token.isDigit c = true) ∧ token.literal.length ≤ digitLimit

theorem Token.legible_iff {token : Token} : token.Legible ↔ (token.kind = .int →
    token.literal.toList ≠ [] ∧ token.literal.toList.all isDigit = true ∧
      token.literal.length ≤ digitLimit) := by
  rw [Legible, List.all_eq_true]

instance : DecidablePred Token.Legible := fun _ => decidable_of_iff _ Token.legible_iff.symm

/-- A token can be read, or it is an integer that is too long, and then the parse may be given up for its
length. -/
def Token.Readable (lost : Abort → Prop) (token : Token) : Prop :=
  token.kind = .int → token.literal.toList ≠ [] ∧
    (∀ c ∈ token.literal.toList, Token.isDigit c = true) ∧
    (digitLimit < token.literal.length → lost (.overlong token.literal.length))

theorem Token.Legible.readable {token : Token} (h : token.Legible) (lost : Abort → Prop) :
    token.Readable lost := by
  intro hkind
  obtain ⟨hne, hdigits, hlength⟩ := h hkind
  exact ⟨hne, hdigits, fun hlong => absurd hlong (Nat.not_lt.2 hlength)⟩

namespace Text

theorem digitValue?_of_isDigit {c : Char} (h : Token.isDigit c = true) :
    digitValue? c = some (c.toNat - 0x30) := by
  simp only [Token.isDigit, Bool.and_eq_true, decide_eq_true_eq] at h
  have lower : 0x30 ≤ c.toNat := h.1
  have upper : c.toNat ≤ 0x39 := h.2
  have found : (decide (0x30 ≤ c.toNat) && decide (c.toNat < 0x30 + 10)) = true := by
    simp only [Bool.and_eq_true, decide_eq_true_eq]
    omega
  rw [digitValue?, zeros, List.find?_cons, found]
  rfl

/-- A run of digits is a numeral. -/
theorem numeralFrom?_of_digits {cs : List Char} (h : ∀ c ∈ cs, Token.isDigit c = true) :
    ∀ value, numeralFrom? value cs = some (Nat.ofDigitChars 10 cs value) := by
  induction cs with
  | nil => exact fun _ => rfl
  | cons c cs ih =>
    intro value
    rw [numeralFrom?, digitValue?_of_isDigit (h c List.mem_cons_self), Option.bind_some,
      Nat.ofDigitChars_cons]
    exact ih (fun d hd => h d (List.mem_cons_of_mem _ hd)) _

end Text

/-- Some digits have a value. -/
theorem Text.numeralValue?_of_digits {cs : List Char} (hne : cs ≠ [])
    (hdigits : ∀ c ∈ cs, Token.isDigit c = true) :
    numeralValue? cs = some (Nat.ofDigitChars 10 cs 0) := by
  cases cs with
  | nil => exact absurd rfl hne
  | cons c cs => exact numeralFrom?_of_digits hdigits 0

/-! ## Being ready -/

/-- No token that ends a text continues an expression. -/
theorem kind_ne_eof_of_lt {threshold : Precedence} {kind : TokenKind}
    (h : threshold < kind.precedence) : kind ≠ .eof := by
  rintro rfl
  revert h
  cases threshold <;> decide

namespace ParserState

/-- Fewer tokens are left than the bound says, all of them legible, and the end of the text is
behind them. -/
structure Ready (bound : Nat) (state : ParserState) : Prop where
  length : state.window.ahead.length < bound
  last : state.window.last.kind = .eof
  legible : ∀ token ∈ state.window.ahead, token.Legible

/-- Fewer tokens are left than the bound says, all of them readable, and the end of the text is
behind them. -/
structure Bounded (lost : Abort → Prop) (bound : Nat) (state : ParserState) : Prop where
  length : state.window.ahead.length < bound
  last : state.window.last.kind = .eof
  readable : ∀ token ∈ state.window.ahead, token.Readable lost

variable {lost : Abort → Prop} {bound : Nat} {before after : ParserState}

theorem Ready.bounded (h : Ready bound before) (lost : Abort → Prop) : Bounded lost bound before :=
  ⟨h.length, h.last, fun token ht => (h.legible token ht).readable lost⟩

theorem Bounded.later (h : Bounded lost bound before) (h' : before.Later after) :
    Bounded lost bound after :=
  ⟨Nat.lt_of_le_of_lt h'.ahead.length_le h.length, h'.last ▸ h.last,
    fun token ht => h.readable token (h'.ahead.subset ht)⟩

/-- Consuming a token makes the bound smaller. -/
theorem Bounded.advance (h : Bounded lost (bound + 1) before) (hne : before.window.ahead ≠ []) :
    Bounded lost bound before.advance := by
  refine ⟨?_, h.last, fun token ht => h.readable token (List.mem_of_mem_tail ht)⟩
  have := h.length
  have := List.length_pos_iff.2 hne
  rw [ahead_advance, List.length_tail]
  omega

theorem Later.length_advance_lt (h : before.Later after) (hne : before.window.ahead ≠ []) :
    after.advance.window.ahead.length < before.window.ahead.length := by
  have := h.ahead.length_le
  have := List.length_pos_iff.2 hne
  rw [ahead_advance, List.length_tail]
  omega

end ParserState

/-- The end of the text opens no expression, and only integer tokens are read as integers. -/
structure Grammar.Tame (grammar : Grammar) : Prop where
  eof : grammar.opening? .eof = none
  integer : ∀ kind, grammar.opening? kind = some .integer → kind = .int

theorem Grammar.tame_standard : Grammar.standard.Tame :=
  ⟨rfl, by intro kind; cases kind <;> decide⟩

namespace Parser

open ParserState

variable {α β : Type} {lost : Abort → Prop} {bound : Nat} {grammar : Grammar} {parts : Parts}

/-- A bound lasts. -/
def Standing.bounded (lost : Abort → Prop) (bound : Nat) : Standing :=
  ⟨Bounded lost bound, Bounded.later⟩

/-! ## Entering a construct -/

/-- Entered on a token, the parser goes forward and does not give up. -/
def Enters (lost : Abort → Prop) (bound : Nat) (parser : Parser α) : Prop :=
  ∀ state, state.Bounded lost bound → state.window.ahead ≠ [] →
    parser.Meets state (fun _ after => state.Later after) (fun _ after => state.Later after)
      lost

namespace Enters

variable {parser : Parser α} {next : α → Parser β}

theorem of_forward (h : parser.Forward (.bounded lost bound) lost) : Enters lost bound parser :=
  fun state hs _ => h state hs

theorem bind (h : Enters lost bound parser)
    (h' : ∀ a, (next a).Forward (.bounded lost bound) lost) : Enters lost bound (parser >>= next) :=
  fun state hs hne => meets_bind.2 <| (h state hs hne).mono
    (fun a t ht => (h' a t (hs.later ht)).mono (fun _ _ => ht.trans) (fun _ _ => ht.trans)
      (fun _ => id))
    (fun _ _ => id) (fun _ => id)

theorem bind_current {next : Token → Parser β} (h : ∀ token, Enters lost bound (next token)) :
    Enters lost bound (current >>= next) :=
  fun state hs hne => meets_bind.2 (h _ state hs hne)

theorem bind_advance {next : Unit → Parser β}
    (h : (next ()).Forward (.bounded lost bound) lost) :
    Enters lost (bound + 1) (advance >>= next) :=
  fun state hs hne => meets_bind.2 <| (h _ (hs.advance hne)).mono
    (fun _ _ => state.later_advance.trans) (fun _ _ => state.later_advance.trans) (fun _ => id)

theorem bind_expect {wanted : TokenKind} (hwanted : wanted ≠ .eof) {next : Unit → Parser β}
    (h : Enters lost bound (next ())) : Enters lost (bound + 1) (expect wanted >>= next) := by
  intro state hs hne
  rw [meets_bind, meets_expect]
  refine ⟨fun hup => ?_, fun _ => .refl state⟩
  have htail := TokenStream.tail_ne_nil hs.last (hup ▸ hwanted)
  exact (h _ (hs.advance hne) htail).mono (fun _ _ => state.later_advance.trans)
    (fun _ _ => state.later_advance.trans) (fun _ => id)

end Enters

/-! ## Lists in parentheses -/

/-- An item that is entered on the token before it consumes at least one token. -/
def Consumes (lost : Abort → Prop) (bound : Nat) (item : Parser α) : Prop :=
  ∀ state, state.Bounded lost bound → state.window.ahead ≠ [] →
    item.Meets state
      (fun _ after => after.window.ahead.length < state.window.ahead.length ∧ state.Later after)
      (fun _ after => state.Later after) lost

theorem items_enters {item : Parser α} (h : Consumes lost bound item) : ∀ rounds state,
    state.Bounded lost bound → state.window.ahead ≠ [] → state.window.ahead.length < rounds →
    (items item rounds).Meets state (fun _ after => state.Later after)
      (fun _ after => state.Later after) lost
  | 0, _, _, _, hrounds => absurd hrounds (Nat.not_lt_zero _)
  | rounds + 1, state, hs, hne, hrounds => by
    rw [items, meets_bind]
    refine (h state hs hne).mono (fun a t ht => ?_) (fun _ _ => id) (fun _ => id)
    obtain ⟨hlt, hlater⟩ := ht
    rw [meets_bind, meets_upcoming, meets_ite]
    refine ⟨fun hcomma => ?_, fun _ => hlater⟩
    have hready := hs.later hlater
    have htail : t.window.ahead.tail ≠ [] := TokenStream.tail_ne_nil hready.last (by simp [hcomma])
    have hadvance := hlater.trans t.later_advance
    rw [meets_bind, meets_advance, meets_bind]
    refine (items_enters h rounds t.advance (hs.later hadvance) htail ?_).mono
      (fun _ _ ht => hadvance.trans ht) (fun _ _ ht => hadvance.trans ht) (fun _ => id)
    rw [ahead_advance, List.length_tail]
    omega

theorem parenthesized_enters {item : Parser α} (h : Consumes lost bound item) :
    Enters lost bound (parenthesized item) := by
  intro state hs hne
  rw [parenthesized, meets_bind, meets_upcoming, meets_ite]
  refine ⟨fun _ => state.later_advance, fun _ => ?_⟩
  rw [meets_bind, meets_remaining, meets_bind]
  refine (items_enters h _ state hs hne (Nat.lt_succ_self _)).mono (fun found t ht => ?_)
    (fun _ _ => id) (fun _ => id)
  rw [meets_bind, meets_expect]
  exact ⟨fun _ => ht.trans t.later_advance, fun _ => ht⟩

theorem parameter_consumes (bound : Nat) : Consumes lost bound parameter := by
  intro state hs hne
  rw [parameter, meets_bind, meets_expect]
  refine ⟨fun _ => ⟨?_, state.later_advance⟩, fun _ => .refl state⟩
  exact (Later.refl state).length_advance_lt hne

/-! ## Constructs -/

theorem integer_meets {state : ParserState} (hs : state.Bounded lost bound)
    (hkind : state.window.current.kind = .int) :
    integer.Meets state (fun _ after => state.Later after) (fun _ after => state.Later after)
      lost := by
  have hne := TokenStream.ahead_ne_nil hs.last (by simp [hkind])
  obtain ⟨hdigit, hdigits, hlong⟩ := hs.readable _ (TokenStream.current_mem hne) hkind
  rw [integer, meets_bind, meets_current]
  simp only [Text.numeralValue?_of_digits hdigit hdigits]
  rw [meets_ite, meets_ite]
  exact ⟨hlong, fun _ => ⟨fun _ => .refl state, fun _ => .refl state⟩⟩

section Constructs

variable (h : parts.Forward (.bounded lost bound) lost)
include h

theorem opening_enters : ∀ {kind : Opening}, kind ≠ .integer →
    Enters lost (bound + 1) (opening parts kind)
  | .reference, _ => .of_forward .reference
  | .integer, hkind => absurd rfl hkind
  | .boolean, _ => .of_forward .boolean
  | .unary, _ => .bind_current fun _ => .bind_advance <| .bind (h.expression _) fun _ => .pure _
  | .group, _ => .bind_advance <| .bind (h.expression _) fun _ => .bind (.expect _) fun _ =>
      .pure _
  | .conditional, _ => .bind_current fun _ => .bind_expect (by decide) <| .of_forward <|
      .bind .advance fun _ => .bind (h.expression _) fun _ => .bind (.expect _) fun _ =>
      .bind (.expect _) fun _ => .bind h.block fun _ => .bind .upcoming fun _ =>
      .ite (.bind .advance fun _ => .bind (.expect _) fun _ => .bind h.block fun _ => .pure _)
        (.pure _)
  | .function, _ => .bind_current fun _ => .bind_expect (by decide) <|
      .bind (parenthesized_enters (parameter_consumes bound)) fun _ => .bind (.expect _) fun _ =>
      .bind h.block fun _ => .pure _

theorem argument_consumes (hpos : ∀ threshold state, state.window.last.kind = .eof →
      (parts.expression threshold).Gives state fun _ _ => state.window.ahead ≠ []) :
    Consumes lost (bound + 1) (argument parts) := by
  intro state hs hne
  rw [argument, meets_bind, meets_advance]
  refine ((h.expression .lowest _ (hs.advance hne)).and (hpos .lowest _ hs.last)).mono
    (fun _ t ht => ⟨?_, state.later_advance.trans ht.1⟩)
    (fun _ t ht => state.later_advance.trans ht.1) (fun _ hc => hc.1)
  exact Nat.lt_of_le_of_lt ht.1.ahead.length_le ((Later.refl state).length_advance_lt hne)

end Constructs

/-! ## Expressions and statements -/

/-- What the parsers for the parts are known to do: they do not give up, and there is no expression
at the end of a text. -/
structure Finite (lost : Abort → Prop) (bound : Nat) (parts : Parts) : Prop where
  forward : parts.Forward (.bounded lost bound) lost
  nonempty : ∀ threshold state, state.window.last.kind = .eof →
    (parts.expression threshold).Gives state fun _ _ => state.window.ahead ≠ []

theorem continuation_enters (h : Finite lost bound parts) : ∀ kind left,
    Enters lost (bound + 1) (continuation parts kind left)
  | .binary, _ => .bind_current fun _ => .bind_advance <|
      .bind (h.forward.expression _) fun _ => .pure _
  | .call, _ => .bind_current fun _ =>
      .bind (parenthesized_enters (argument_consumes h.forward h.nonempty)) fun _ => .pure _

theorem climb_meets (h : Finite lost bound parts) (threshold : Precedence) : ∀ rounds left state,
    state.Bounded lost (bound + 1) → state.window.ahead.length < rounds →
    (climb grammar parts threshold rounds left).Meets state (fun _ after => state.Later after)
      (fun _ after => state.Later after) lost
  | 0, _, _, _, hrounds => absurd hrounds (Nat.not_lt_zero _)
  | rounds + 1, left, state, hs, hrounds => by
    rw [climb, meets_bind, meets_upcoming, meets_ite]
    refine ⟨fun htighter => ?_, fun _ => .refl state⟩
    split
    · exact .refl state
    · have htail := TokenStream.tail_ne_nil hs.last (kind_ne_eof_of_lt htighter)
      have hadvance := state.later_advance
      rw [meets_bind, meets_advance, meets_bind]
      refine (continuation_enters h _ left _ (hs.later hadvance) htail).mono (fun left' t ht => ?_)
        (fun _ _ ht => hadvance.trans ht) (fun _ => id)
      have hlater := hadvance.trans ht
      refine (climb_meets h threshold rounds left' t (hs.later hlater) ?_).mono
        (fun _ _ => hlater.trans) (fun _ _ => hlater.trans) (fun _ => id)
      have := ht.ahead.length_le
      have hne : state.window.ahead ≠ [] := fun hnil => htail (by simp [hnil])
      have := (Later.refl state).length_advance_lt hne
      omega

theorem expressionWith_forward (hg : grammar.Tame) (h : Finite lost bound parts)
    (threshold : Precedence) :
    (expressionWith grammar parts threshold).Forward (.bounded lost (bound + 1)) lost := by
  intro state hs
  rw [expressionWith, meets_bind, meets_current]
  split
  · exact .refl state
  · rename_i kind hkind
    have hne : state.window.ahead ≠ [] := by
      refine TokenStream.ahead_ne_nil hs.last fun heof => ?_
      rw [heof, hg.eof] at hkind
      cases hkind
    have hopening : (opening parts kind).Meets state (fun _ after => state.Later after)
        (fun _ after => state.Later after) lost := by
      by_cases hint : kind = .integer
      · subst hint
        exact integer_meets hs (hg.integer _ hkind)
      · exact opening_enters h.forward hint state hs hne
    rw [meets_bind]
    refine hopening.mono (fun left t ht => ?_) (fun _ _ => id) (fun _ => id)
    rw [meets_bind, meets_remaining]
    exact (climb_meets h threshold _ left t (hs.later ht) (Nat.lt_succ_self _)).mono
      (fun _ _ => ht.trans) (fun _ _ => ht.trans) (fun _ => id)

theorem statementsWith_meets (h : parts.Forward (.bounded lost bound) lost)
    (closing : List TokenKind) : ∀ rounds state,
    state.Bounded lost bound → state.window.ahead.length < rounds →
    (statementsWith parts closing rounds).Meets state (fun _ after => state.Later after)
      (fun _ after => state.Later after) lost
  | 0, _, _, hrounds => absurd hrounds (Nat.not_lt_zero _)
  | rounds + 1, state, hs, hrounds => by
    -- behind each statement, dropped or not, the loop goes on with fewer tokens than before it
    have next : ∀ after : ParserState, state.Later after → state.window.ahead ≠ [] →
        (statementsWith parts closing rounds).Meets after.advance
          (fun _ t => state.Later t) (fun _ t => state.Later t) lost := by
      intro after hafter hne
      have hadvance := hafter.trans after.later_advance
      have hlt := hafter.length_advance_lt hne
      exact (statementsWith_meets h closing rounds _ (hs.later hadvance) (by omega)).mono
        (fun _ _ => hadvance.trans) (fun _ _ => hadvance.trans) (fun _ => id)
    rw [statementsWith, meets_bind, meets_current, meets_ite]
    refine ⟨fun _ => .refl state, fun hopen => ?_⟩
    have hne : state.window.ahead ≠ [] :=
      TokenStream.ahead_ne_nil hs.last (by simp_all)
    rw [meets_bind, meets_attempt]
    refine ((Forward.statement h) state hs).mono (fun first t ht => ?_) (fun d t ht => ?_)
      (fun _ => id)
    · simp only [meets_bind, meets_advance, meets_pure]
      exact next t ht hne
    · have hskip := (ht.trans (t.later_record d)).trans (ParserState.later_skip _ closing)
      simp only [meets_bind, meets_skipTo, meets_current, meets_ite, meets_advance, meets_pure]
      exact ⟨fun _ => hskip, fun _ => next _ hskip hne⟩

theorem blockWith_forward (h : parts.Forward (.bounded lost bound) lost) :
    (blockWith parts).Forward (.bounded lost (bound + 1)) lost := by
  intro state hs
  simp only [blockWith, meets_bind, meets_current, meets_advance, meets_remaining, meets_pure]
  have hadvance := state.later_advance
  by_cases hne : state.window.ahead = []
  · -- at the end of the text there is no statement to read
    have heof : state.advance.window.current.kind = .eof := by
      rw [TokenStream.current, ahead_advance, hne]
      exact hs.last
    simp only [statementsWith, meets_bind, meets_current, heof]
    exact hadvance
  · exact (statementsWith_meets h _ _ _ (hs.advance hne) (Nat.lt_succ_self _)).mono
      (fun _ _ => hadvance.trans) (fun _ _ => hadvance.trans) (fun _ => id)

/-! ## The whole circle -/

theorem nonempty_expressionWith (hg : grammar.Tame) (threshold : Precedence) {state : ParserState}
    (hlast : state.window.last.kind = .eof) :
    (expressionWith grammar parts threshold).Gives state fun _ _ => state.window.ahead ≠ [] := by
  rw [Gives, expressionWith, meets_bind, meets_current]
  split
  · exact True.intro
  · rename_i kind hkind
    have hne : state.window.ahead ≠ [] := by
      refine TokenStream.ahead_ne_nil hlast fun heof => ?_
      rw [heof, hg.eof] at hkind
      cases hkind
    exact (Gives.trivial _ state).mono fun _ _ _ => hne

/-- **No depth is ever used up**: parsers of some depth never give up while fewer tokens are left
than that. -/
theorem finite_upTo (hg : grammar.Tame) : ∀ depth, Finite lost depth (Parts.upTo grammar depth)
  | 0 =>
    { forward := ⟨fun _ _ hs => absurd hs.length (Nat.not_lt_zero _),
        fun _ hs => absurd hs.length (Nat.not_lt_zero _)⟩
      nonempty := fun _ _ _ => True.intro }
  | depth + 1 =>
    { forward := ⟨fun threshold => expressionWith_forward hg (finite_upTo hg depth) threshold,
        blockWith_forward (finite_upTo hg depth).forward⟩
      nonempty := fun threshold _ hlast => nonempty_expressionWith hg threshold hlast }

/-- A text is given up for nothing but integers that are too long. -/
theorem program_ends (hg : grammar.Tame) {state : ParserState}
    (hlast : state.window.last.kind = .eof)
    (hreadable : ∀ token ∈ state.window.ahead, token.Readable lost) :
    (program grammar).Meets state (fun _ after => state.Later after)
      (fun _ after => state.Later after) lost := by
  simp only [program, withParts, meets_bind, meets_remaining]
  exact statementsWith_meets (finite_upTo hg _).forward [] _ state
    ⟨Nat.lt_succ_self _, hlast, hreadable⟩ (Nat.lt_succ_self _)

/-- A text of legible tokens is never given up. -/
theorem program_meets (hg : grammar.Tame) {state : ParserState}
    (hlast : state.window.last.kind = .eof) (hlegible : ∀ token ∈ state.window.ahead, token.Legible) :
    (program grammar).Meets state (fun _ after => state.Later after)
      (fun _ after => state.Later after) (fun _ => False) :=
  program_ends hg hlast fun token htoken => (hlegible token htoken).readable _

end Parser

/-- **Every text of legible tokens is parsed to its end.** -/
theorem parseTokens_isOk {window : TokenStream} (hlast : window.last.kind = .eof)
    (hlegible : ∀ token ∈ window.ahead, token.Legible) :
    ∃ parsed, parseTokens window = .ok parsed := by
  have h := @Parser.program_meets _ Grammar.tame_standard { window } hlast hlegible
  obtain ⟨parsed, hparsed, -⟩ := Parser.exists_parsed h
  exact ⟨parsed, hparsed⟩

end MonkeyLang
