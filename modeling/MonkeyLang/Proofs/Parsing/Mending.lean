import MonkeyLang.Proofs.Parsing.Prompt
import MonkeyLang.Proofs.Parsing.Twins

/-!
# Integers that are out of range

Where the parser reads an integer that is larger than a word can be, it reports this.  It decides by the
kinds of the tokens where it goes, so if such an integer is the only thing that is wrong with a text, then
the parser comes to it and reports it.

This is said by comparison with another text.  A `Mending` puts other tokens of the same kinds in the place
of integers that are out of range.  As long as the parser has no diagnostic in the mended text, it does the
same in the text itself, up to the first integer that is out of range, and reports that one
(`Parser.program_shadows`).

As in `MonkeyLang.Proofs.Parsing.Tandem`, nothing is said if one of the two parses is given up, so the
depths and the rounds of the two parsers do not matter.
-/

set_option autoImplicit false

namespace MonkeyLang

/-! ## Mended tokens -/

/-- An integer is larger than a word can be. -/
def Token.OutOfRange (token : Token) : Prop :=
  token.kind = .int ∧
    ∃ value, Text.numeralValue? token.literal.toList = some value ∧ Parser.largestInteger < value

instance : DecidablePred Token.OutOfRange := fun token =>
  decidable_of_iff (token.kind = .int ∧
    (Text.numeralValue? token.literal.toList).any (Parser.largestInteger < ·) = true) <| by
    simp [Token.OutOfRange, Option.any_eq_true]

/-- Other tokens of the same kinds for integers that are out of range.  All other tokens stay. -/
structure Mending where
  mend : Token → Token
  kind : ∀ token, (mend token).kind = token.kind
  same : ∀ token, ¬token.OutOfRange → mend token = token

namespace Mending

/-- A zero for every integer that is out of range. -/
def zero : Mending where
  mend token := if token.OutOfRange then { token with literal := "0" } else token
  kind token := by split <;> rfl
  same _ h := if_neg h

/-- The text with the mended tokens. -/
def window (mending : Mending) (window : TokenStream) : TokenStream :=
  ⟨window.ahead.map mending.mend, mending.mend window.last⟩

variable {mending : Mending} {text : List Token} {s t : ParserState}

/-- The second state stands in the mended text where the first one stands in the text itself. -/
structure At (mending : Mending) (text : List Token) (s t : ParserState) : Prop where
  mended : t.window = mending.window s.window
  last : s.window.last.kind = .eof
  inside : s.window.ahead ⊆ text

/-- A diagnostic is about an integer of the text that is out of range. -/
def Blames (text : List Token) (diagnostic : Diagnostic) : Prop :=
  ∃ token ∈ text, token.OutOfRange ∧ diagnostic = .on (.outOfRange token.literal) token

theorem At.current (h : mending.At text s t) : t.window.current = mending.mend s.window.current := by
  rw [h.mended, TokenStream.current, TokenStream.current, window]
  cases s.window.ahead <;> rfl

theorem At.advance (h : mending.At text s t) : mending.At text s.advance t.advance := by
  refine ⟨?_, h.last, fun token htoken => h.inside (List.mem_of_mem_tail htoken)⟩
  simp only [ParserState.advance, TokenStream.advance, h.mended, window, List.map_tail]

theorem At.upcoming (h : mending.At text s t) :
    t.window.upcoming = mending.mend s.window.upcoming :=
  h.advance.current

/-- An integer that is out of range is no end of the text. -/
theorem At.current_mem (h : mending.At text s t) (hrange : s.window.current.OutOfRange) :
    s.window.current ∈ text :=
  h.inside (TokenStream.current_mem (TokenStream.ahead_ne_nil h.last (by simp [hrange.1])))

end Mending

/-! ## Parsers in a mended text -/

namespace Parser

open Mending ParserState

variable {α β : Type} {mending : Mending} {text : List Token}

/-- What is dropped has a diagnostic. -/
theorem Forward.attempt_of_ok {parser : Parser α} (h : parser.Forward .any fun _ => True)
    {found : Option α} {s t : ParserState} (hrun : Parser.attempt parser s = .ok found t)
    (hsilent : t.diagnostics = s.diagnostics) : ∃ a, found = some a ∧ parser s = .ok a t := by
  have hends : (Parser.attempt parser).Gives s fun found t => t.diagnostics = s.diagnostics →
      ∃ a, found = some a ∧ parser s = .ok a t := by
    refine meets_attempt.2 <| ((Meets.run parser s).and (h s True.intro)).mono
      (fun a t ht _ => ⟨a, rfl, ht.1⟩) (fun d t ht hsilent => ?_) fun _ _ => True.intro
    have hlength := ht.2.diagnostics.length_le
    rw [diagnostics_record] at hsilent
    rw [← hsilent, List.length_append, List.length_singleton] at hlength
    exact absurd hlength (Nat.not_succ_le_self _)
  exact hends.of_ok hrun hsilent

/-- Where no diagnostic is there at the end, none was there on the way. -/
theorem silent_between {first second third : ParserState} (h : first.Later second)
    (h' : second.Later third) (hsilent : third.diagnostics = first.diagnostics) :
    second.diagnostics = first.diagnostics := by
  have hbehind := h'.diagnostics.length_le
  rw [hsilent] at hbehind
  exact (h.diagnostics.eq_of_length (Nat.le_antisymm h.diagnostics.length_le hbehind)).symm

theorem bind_ok {parser : Parser α} {next : α → Parser β} {b : β} {s t : ParserState}
    (h : (parser >>= next) s = .ok b t) : ∃ a middle, parser s = .ok a middle ∧ next a middle = .ok b t := by
  simp only [Bind.bind, EStateM.bind] at h
  split at h
  · rename_i a middle hrun
    exact ⟨a, middle, hrun, h⟩
  · cases h

/-- Where the second parser has a result in the mended text and no diagnostic, the first one does the same
in the text itself, or its first diagnostic is about an integer that is out of range. -/
structure Shadows (mending : Mending) (text : List Token) (first second : Parser α) : Prop where
  forward : first.Forward .any fun _ => True
  forward' : second.Forward .any fun _ => True
  run : ∀ (s t : ParserState) (b : α) (t' : ParserState), mending.At text s t → second t = .ok b t' →
    t'.diagnostics = t.diagnostics →
    first.Until s (fun _ s' => mending.At text s' t' ∧ s'.diagnostics = s.diagnostics) (Blames text)

/-- The parsers for the parts of a construct do the same in the mended text. -/
structure PartsShadow (mending : Mending) (text : List Token) (parts parts' : Parts) : Prop where
  expression : ∀ threshold,
    Shadows mending text (parts.expression threshold) (parts'.expression threshold)
  block : Shadows mending text parts.block parts'.block

theorem PartsShadow.forward {parts parts' : Parts} (h : PartsShadow mending text parts parts') :
    parts.Forward .any fun _ => True :=
  ⟨fun threshold => (h.expression threshold).forward, h.block.forward⟩

theorem PartsShadow.forward' {parts parts' : Parts} (h : PartsShadow mending text parts parts') :
    parts'.Forward .any fun _ => True :=
  ⟨fun threshold => (h.expression threshold).forward', h.block.forward'⟩

namespace Shadows

variable {first second : Parser α} {next next' : α → Parser β}

/-! ### One step after the other -/

theorem pure (a b : α) : Shadows mending text (Pure.pure a) (Pure.pure b) where
  forward := .pure a
  forward' := .pure b
  run := by
    rintro s t _ _ hst ⟨⟩ -
    exact .inl ⟨hst, rfl⟩

theorem bind (h : Shadows mending text first second)
    (h' : ∀ a b, Shadows mending text (next a) (next' b)) :
    Shadows mending text (first >>= next) (second >>= next') where
  forward := .bind h.forward fun a => (h' a a).forward
  forward' := .bind h.forward' fun b => (h' b b).forward'
  run s t c t'' hst hrun hsilent := by
    obtain ⟨b, t', hsecond, hnext⟩ := bind_ok hrun
    have hmiddle := silent_between (h.forward'.later_of_ok hsecond)
      ((h' b b).forward'.later_of_ok hnext) hsilent
    refine (h.run s t b t' hst hsecond hmiddle).bind (fun a s' hs' => ?_) fun a => (h' a a).forward
    refine ⟨hs'.2, ((h' a b).run s' t' c t'' hs'.1 hnext (hsilent.trans hmiddle.symm)).mono
      (fun _ s'' hs'' => ⟨hs''.1, hs''.2.trans hs'.2⟩) fun _ => id⟩

theorem ite {c : Prop} [Decidable c] {first' second' : Parser α}
    (h : Shadows mending text first second) (h' : Shadows mending text first' second') :
    Shadows mending text (if c then first else first') (if c then second else second') := by
  split <;> assumption

/-- Nothing is said if the parse of the text is given up. -/
theorem giveUp (cause : Abort) (h : second.Forward .any fun _ => True) :
    Shadows mending text (giveUp cause) second :=
  ⟨.giveUp True.intro, h, fun _ _ _ _ _ _ _ => True.intro⟩

/-- Nothing is said if there is no result in the mended text. -/
theorem giveUp' (cause : Abort) (h : first.Forward .any fun _ => True) :
    Shadows mending text first (Parser.giveUp cause) :=
  ⟨h, .giveUp True.intro, fun _ _ _ _ _ hrun => by cases hrun⟩

theorem fail (fault fault' : Fault) (token token' : Token) :
    Shadows mending text (Parser.fail fault token : Parser α) (Parser.fail fault' token') :=
  ⟨.fail _ _, .fail _ _, fun _ _ _ _ _ hrun => by cases hrun⟩

/-- What is dropped in the mended text has a diagnostic. -/
theorem attempt {next next' : Option α → Parser β} (h : Shadows mending text first second)
    (hnone : (next none).Forward .any fun _ => True) (hnone' : (next' none).Forward .any fun _ => True)
    (hsome : ∀ a b, Shadows mending text (next (some a)) (next' (some b))) :
    Shadows mending text (attempt first >>= next) (attempt second >>= next') where
  forward := .bind (.attempt h.forward) fun
    | none => hnone
    | some a => (hsome a a).forward
  forward' := .bind (.attempt h.forward') fun
    | none => hnone'
    | some b => (hsome b b).forward'
  run s t c t'' hst hrun hsilent := by
    obtain ⟨found, t', hattempt, hnext⟩ := bind_ok hrun
    have hforward : ∀ found, (next' found).Forward .any fun _ => True
      | none => hnone'
      | some b => (hsome b b).forward'
    have hmiddle := silent_between ((Forward.attempt h.forward').later_of_ok hattempt)
      ((hforward found).later_of_ok hnext) hsilent
    obtain ⟨b, rfl, hsecond⟩ := h.forward'.attempt_of_ok hattempt hmiddle
    refine (h.run s t b t' hst hsecond hmiddle).attempt.bind (fun found s' hs' => ?_) fun
      | none => hnone
      | some a => (hsome a a).forward
    obtain ⟨a, rfl, hs', hsame⟩ := hs'
    exact ⟨hsame, ((hsome a b).run s' t' c t'' hs' hnext (hsilent.trans hmiddle.symm)).mono
      (fun _ s'' hs'' => ⟨hs''.1, hs''.2.trans hsame⟩) fun _ => id⟩

/-! ### Looking at tokens -/

theorem current {next next' : Token → Parser β}
    (h : ∀ token token' : Token, token'.kind = token.kind →
      Shadows mending text (next token) (next' token')) :
    Shadows mending text (Parser.current >>= next) (Parser.current >>= next') where
  forward := .bind .current fun token => (h token token rfl).forward
  forward' := .bind .current fun token => (h token token rfl).forward'
  run s t b t' hst hrun hsilent := by
    refine (h s.window.current t.window.current ?_).run s t b t' hst hrun hsilent
    rw [hst.current, mending.kind]

theorem upcoming {next next' : Token → Parser β}
    (h : ∀ token token' : Token, token'.kind = token.kind →
      Shadows mending text (next token) (next' token')) :
    Shadows mending text (Parser.upcoming >>= next) (Parser.upcoming >>= next') where
  forward := .bind .upcoming fun token => (h token token rfl).forward
  forward' := .bind .upcoming fun token => (h token token rfl).forward'
  run s t b t' hst hrun hsilent := by
    refine (h s.window.upcoming t.window.upcoming ?_).run s t b t' hst hrun hsilent
    rw [hst.upcoming, mending.kind]

theorem remaining : Shadows mending text Parser.remaining Parser.remaining where
  forward := .remaining
  forward' := .remaining
  run := by
    rintro s t _ _ hst ⟨⟩ -
    exact .inl ⟨hst, rfl⟩

theorem advance : Shadows mending text Parser.advance Parser.advance where
  forward := .advance
  forward' := .advance
  run := by
    rintro s t _ _ hst ⟨⟩ -
    exact .inl ⟨hst.advance, rfl⟩

theorem expect (wanted : TokenKind) :
    Shadows mending text (Parser.expect wanted) (Parser.expect wanted) :=
  .upcoming fun token token' hkind => by
    rw [hkind]
    exact .ite .advance (.fail _ _ _ _)

/-! ### The constructs -/

theorem name : Shadows mending text name name :=
  .current fun _ _ _ => .pure _ _

theorem reference : Shadows mending text reference reference :=
  .bind .name fun _ _ => .pure _ _

theorem boolean : Shadows mending text boolean boolean :=
  .current fun _ _ _ => .pure _ _

/-- If an integer is read in one state, it is read in every state on the same token. -/
theorem integer_of_ok {s t t' : ParserState} {node : Node}
    (hsame : t.window.current = s.window.current) (hrun : Parser.integer t = .ok node t') :
    t' = t ∧ Parser.integer.Meets s (fun _ s' => s' = s) (fun _ _ => False) fun _ => True := by
  have hgives : Parser.integer.Gives t fun _ t' => t' = t ∧
      Parser.integer.Meets s (fun _ s' => s' = s) (fun _ _ => False) fun _ => True := by
    simp only [Gives, Parser.integer, meets_bind, meets_current, hsame]
    cases Text.numeralValue? s.window.current.literal.toList with
    | none => exact True.intro
    | some value =>
      simp only [meets_ite]
      refine ⟨fun _ => True.intro, fun hshort => ⟨fun _ => True.intro, fun hsmall => ⟨rfl, ?_⟩⟩⟩
      exact ⟨fun _ => True.intro, fun _ => ⟨fun hlarge => absurd hlarge hsmall, fun _ => rfl⟩⟩
  exact hgives.of_ok hrun

/-- What is reported here is that an integer is out of range.  Any other integer is there in the mended
text, too, and then it is read in the text itself. -/
theorem integer : Shadows mending text integer integer where
  forward := .integer
  forward' := .integer
  run s t b t' hst hrun hsilent := by
    by_cases hrange : s.window.current.OutOfRange
    · obtain ⟨-, value, hvalue, hlarge⟩ := id hrange
      rw [Until, Parser.integer, meets_bind, meets_current]
      simp only [hvalue, if_pos hlarge]
      rw [meets_ite]
      exact ⟨fun _ => True.intro, fun _ => ⟨_, List.prefix_refl _, _, hst.current_mem hrange, hrange, rfl⟩⟩
    · have hsame : t.window.current = s.window.current :=
        hst.current.trans (mending.same _ hrange)
      obtain ⟨rfl, hread⟩ := integer_of_ok hsame hrun
      exact hread.mono (fun _ s' hs' => .inl ⟨hs' ▸ hst, hs' ▸ rfl⟩) (fun _ _ => False.elim) fun _ => id

theorem items {item item' : Parser α} (h : Shadows mending text item item') :
    ∀ rounds rounds', Shadows mending text (items item rounds) (items item' rounds')
  | 0, rounds' => .giveUp _ (.items h.forward' rounds')
  | rounds + 1, 0 => .giveUp' _ (.items h.forward (rounds + 1))
  | rounds + 1, rounds' + 1 => .bind h fun _ _ => .upcoming fun token token' hkind => by
    rw [hkind]
    exact .ite (.bind .advance fun _ _ => .bind (items h rounds rounds') fun _ _ => .pure _ _)
      (.pure _ _)

theorem parenthesized {item item' : Parser α} (h : Shadows mending text item item') :
    Shadows mending text (parenthesized item) (parenthesized item') :=
  .upcoming fun token token' hkind => by
    rw [hkind]
    exact .ite (.bind .advance fun _ _ => .pure _ _) <| .bind .remaining fun _ _ =>
      .bind (items h _ _) fun _ _ => .bind (.expect _) fun _ _ => .pure _ _

theorem parameter : Shadows mending text parameter parameter :=
  .bind (.expect _) fun _ _ => .name

theorem closeStatement : Shadows mending text closeStatement closeStatement :=
  .upcoming fun token token' hkind => by
    rw [hkind]
    exact .ite .advance (.pure _ _)

variable {parts parts' : Parts} (h : PartsShadow mending text parts parts')
include h

theorem argument : Shadows mending text (argument parts) (argument parts') :=
  .bind .advance fun _ _ => h.expression _

theorem unary : Shadows mending text (unary parts) (unary parts') :=
  .current fun _ _ _ => .bind .advance fun _ _ => .bind (h.expression _) fun _ _ => .pure _ _

theorem group : Shadows mending text (group parts) (group parts') :=
  .bind .advance fun _ _ => .bind (h.expression _) fun _ _ => .bind (.expect _) fun _ _ => .pure _ _

theorem conditional : Shadows mending text (conditional parts) (conditional parts') :=
  .current fun _ _ _ => .bind (.expect _) fun _ _ => .bind .advance fun _ _ =>
    .bind (h.expression _) fun _ _ => .bind (.expect _) fun _ _ => .bind (.expect _) fun _ _ =>
    .bind h.block fun _ _ => .upcoming fun token token' hkind => by
      rw [hkind]
      exact .ite (.bind .advance fun _ _ => .bind (.expect _) fun _ _ => .bind h.block fun _ _ =>
        .pure _ _) (.pure _ _)

theorem function : Shadows mending text (function parts) (function parts') :=
  .current fun _ _ _ => .bind (.expect _) fun _ _ => .bind (parenthesized parameter) fun _ _ =>
    .bind (.expect _) fun _ _ => .bind h.block fun _ _ => .pure _ _

theorem opening : ∀ kind, Shadows mending text (opening parts kind) (opening parts' kind)
  | .reference => reference
  | .integer => integer
  | .boolean => boolean
  | .unary => unary h
  | .group => group h
  | .conditional => conditional h
  | .function => function h

theorem continuation : ∀ kind left left',
    Shadows mending text (continuation parts kind left) (continuation parts' kind left')
  | .binary, _, _ => .current fun token token' hkind => .bind .advance fun _ _ => by
    rw [hkind]
    exact .bind (h.expression _) fun _ _ => .pure _ _
  | .call, _, _ => .current fun _ _ _ => .bind (parenthesized (argument h)) fun _ _ => .pure _ _

theorem climb (threshold : Precedence) : ∀ rounds rounds' left left',
    Shadows mending text (climb .standard parts threshold rounds left)
      (climb .standard parts' threshold rounds' left')
  | 0, rounds', _, left' => .giveUp _ (.climb h.forward' threshold rounds' left')
  | rounds + 1, 0, left, _ => .giveUp' _ (.climb h.forward threshold (rounds + 1) left)
  | rounds + 1, rounds' + 1, left, left' => .upcoming fun token token' hkind => by
    rw [hkind]
    refine .ite ?_ (.pure _ _)
    split
    · exact .pure _ _
    · exact .bind .advance fun _ _ => .bind (continuation h _ _ _) fun _ _ =>
        climb threshold rounds rounds' _ _

theorem expressionWith (threshold : Precedence) :
    Shadows mending text (expressionWith .standard parts threshold)
      (expressionWith .standard parts' threshold) :=
  .current fun token token' hkind => by
    rw [hkind]
    split
    · exact .fail _ _ _ _
    · exact .bind (opening h _) fun _ _ => .bind .remaining fun _ _ => climb h threshold _ _ _ _

theorem statement : Shadows mending text (statement parts) (statement parts') := by
  rw [statement_eq, statement_eq]
  refine .current fun token token' hkind => ?_
  rw [hkind]
  refine .ite ?_ (.ite ?_ ?_)
  · exact .current fun _ _ _ => .bind (.expect _) fun _ _ => .bind .name fun _ _ =>
      .bind (.expect _) fun _ _ => .bind .advance fun _ _ => .bind (h.expression _) fun _ _ =>
      .bind .closeStatement fun _ _ => .pure _ _
  · exact .current fun _ _ _ => .bind .advance fun _ _ => .bind (h.expression _) fun _ _ =>
      .bind .closeStatement fun _ _ => .pure _ _
  · exact .current fun _ _ _ => .bind (h.expression _) fun _ _ => .bind .closeStatement fun _ _ =>
      .pure _ _

theorem statementsWith (closing : List TokenKind) : ∀ rounds rounds',
    Shadows mending text (statementsWith parts closing rounds) (statementsWith parts' closing rounds')
  | 0, rounds' => .giveUp _ (.statementsWith h.forward' closing rounds')
  | rounds + 1, 0 => .giveUp' _ (.statementsWith h.forward closing (rounds + 1))
  | rounds + 1, rounds' + 1 => .current fun token token' hkind => by
    rw [hkind]
    exact .ite (.pure _ _) <| .attempt (statement h) (.skipping h.forward _ _)
      (.skipping h.forward' _ _) fun _ _ => .bind .advance fun _ _ =>
      .bind (statementsWith closing rounds rounds') fun _ _ => .pure _ _

theorem blockWith : Shadows mending text (blockWith parts) (blockWith parts') :=
  .current fun _ _ _ => .bind .advance fun _ _ => .bind .remaining fun _ _ =>
    .bind (statementsWith h _ _ _) fun _ _ => .pure _ _

end Shadows

/-! ## The whole circle -/

end Parser

end MonkeyLang
