import MonkeyLang.Parser.Program
import MonkeyLang.Proofs.Parsing.Window

/-!
# What parsers do, in terms of what holds afterwards

A parser ends in one of three ways: with a result, with the diagnostic of a malformed construct, or
by giving the whole parse up.  `Parser.Meets` says of a parser and the state that it starts in that
whichever way it ends, a given property holds: `good` of the result and the state behind it, `bad`
of the diagnostic and the state behind it, or `lost` of the reason for giving up.

Every statement about parsers is put in these terms.

* The rules of this file compute `Meets` for a sequence of steps from the steps.  They are equations,
  and `simp` with them runs a definition step by step (`Parser.meets_bind` and the lemmas behind it).
* `Parser.Meets.mono` replaces the properties by weaker ones; this is how the statement about one
  parser is used inside another.

* `Parser.Forward` says of a parser that it leads to later states only.  This can be read off its
  shape.
-/

set_option autoImplicit false

namespace MonkeyLang

namespace Parser

/-! ## Properties that hold afterwards -/

variable {α β : Type}

/-- However the parser ends when it starts in the state, the property for that way of ending
holds. -/
def Meets (parser : Parser α) (state : ParserState) (good : α → ParserState → Prop)
    (bad : Diagnostic → ParserState → Prop) (lost : Abort → Prop) : Prop :=
  match parser state with
  | .ok result after => good result after
  | .error (.malformed diagnostic) after => bad diagnostic after
  | .error (.abort cause) _ => lost cause

/-- If the parser has a result when it starts in the state, the property holds of it. -/
abbrev Gives (parser : Parser α) (state : ParserState) (good : α → ParserState → Prop) : Prop :=
  parser.Meets state good (fun _ _ => True) (fun _ => True)

section Rules

variable {state : ParserState} {good : α → ParserState → Prop}
  {bad : Diagnostic → ParserState → Prop} {lost : Abort → Prop}

theorem Meets.mono {parser : Parser α} {good' : α → ParserState → Prop}
    {bad' : Diagnostic → ParserState → Prop} {lost' : Abort → Prop}
    (h : parser.Meets state good bad lost) (hgood : ∀ a t, good a t → good' a t)
    (hbad : ∀ d t, bad d t → bad' d t) (hlost : ∀ c, lost c → lost' c) :
    parser.Meets state good' bad' lost' := by
  unfold Meets at h ⊢
  split at h
  · exact hgood _ _ h
  · exact hbad _ _ h
  · exact hlost _ h

theorem Gives.mono {parser : Parser α} {good' : α → ParserState → Prop}
    (h : parser.Gives state good) (hgood : ∀ a t, good a t → good' a t) :
    parser.Gives state good' :=
  Meets.mono h hgood (fun _ _ => id) (fun _ => id)

theorem Meets.and {parser : Parser α} {good' : α → ParserState → Prop}
    {bad' : Diagnostic → ParserState → Prop} {lost' : Abort → Prop}
    (h : parser.Meets state good bad lost) (h' : parser.Meets state good' bad' lost') :
    parser.Meets state (fun a t => good a t ∧ good' a t) (fun d t => bad d t ∧ bad' d t)
      (fun c => lost c ∧ lost' c) := by
  unfold Meets at h h' ⊢
  split at h <;> simp_all

/-- Every run ends in some way. -/
theorem Meets.run (parser : Parser α) (state : ParserState) :
    parser.Meets state (fun a t => parser state = .ok a t)
      (fun d t => parser state = .error (.malformed d) t) fun _ => True := by
  unfold Meets
  split <;> first | assumption | exact True.intro

/-- Of the result of a run what is met holds. -/
theorem Meets.of_ok {parser : Parser α} (h : parser.Meets state good bad lost) {a : α}
    {after : ParserState} (hrun : parser state = .ok a after) : good a after := by
  rw [Meets, hrun] at h
  exact h

/-- Nothing is said of a run whose every ending is allowed. -/
theorem Gives.trivial (parser : Parser α) (state : ParserState) :
    parser.Gives state fun _ _ => True := by
  unfold Gives Meets
  split <;> exact True.intro

theorem meets_pure (a : α) : Meets (pure a) state good bad lost ↔ good a state := Iff.rfl

theorem meets_bind {parser : Parser α} {next : α → Parser β} {good : β → ParserState → Prop} :
    Meets (parser >>= next) state good bad lost ↔
      parser.Meets state (fun a t => (next a).Meets t good bad lost) bad lost := by
  simp only [Meets, bind, EStateM.bind]
  cases parser state with
  | ok a t => rfl
  | error e t => cases e <;> rfl

theorem meets_ite {c : Prop} [Decidable c] {first second : Parser α} :
    Meets (if c then first else second) state good bad lost ↔
      (c → first.Meets state good bad lost) ∧ (¬c → second.Meets state good bad lost) := by
  split <;> simp_all

theorem meets_current {good : Token → ParserState → Prop} :
    current.Meets state good bad lost ↔ good state.window.current state := Iff.rfl

theorem meets_upcoming {good : Token → ParserState → Prop} :
    upcoming.Meets state good bad lost ↔ good state.window.upcoming state := Iff.rfl

theorem meets_remaining {good : Nat → ParserState → Prop} :
    remaining.Meets state good bad lost ↔ good state.window.ahead.length state := Iff.rfl

theorem meets_advance {good : Unit → ParserState → Prop} :
    advance.Meets state good bad lost ↔ good () state.advance := Iff.rfl

theorem meets_fail (fault : Fault) (token : Token) :
    (fail fault token : Parser α).Meets state good bad lost ↔ bad (.on fault token) state :=
  Iff.rfl

theorem meets_skipTo {kinds : List TokenKind} {good : Unit → ParserState → Prop} :
    (skipTo kinds).Meets state good bad lost ↔ good () (state.skip kinds) := Iff.rfl

theorem meets_expect {wanted : TokenKind} {good : Unit → ParserState → Prop} :
    (expect wanted).Meets state good bad lost ↔
      (state.window.upcoming.kind = wanted → good () state.advance) ∧
      (state.window.upcoming.kind ≠ wanted →
        bad (.on (.expected wanted state.window.upcoming.kind) state.window.upcoming) state) := by
  rw [expect, meets_bind, meets_upcoming, meets_ite, meets_advance, meets_fail]

theorem Gives.bind {parser : Parser α} {next : α → Parser β} {good' : β → ParserState → Prop}
    (h : parser.Gives state good) (h' : ∀ a t, good a t → (next a).Gives t good') :
    (parser >>= next).Gives state good' :=
  meets_bind.2 (h.mono h')

theorem Gives.expect {wanted : TokenKind} {next : Unit → Parser β} {good : β → ParserState → Prop}
    (h : state.window.upcoming.kind = wanted → (next ()).Gives state.advance good) :
    (Parser.expect wanted >>= next).Gives state good :=
  meets_bind.2 (meets_expect.2 ⟨h, fun _ => True.intro⟩)

/-- A recorded fault counts as an ending with no result. -/
theorem meets_attempt {parser : Parser α} {good : Option α → ParserState → Prop} :
    (attempt parser).Meets state good bad lost ↔
      parser.Meets state (fun a t => good (some a) t) (fun d t => good none (t.record d)) lost := by
  simp only [Meets, attempt]
  cases parser state with
  | ok a t => rfl
  | error e t => cases e <;> rfl

end Rules

/-! ## Whole texts -/

/-- What the parser of whole texts meets, the outcome of a text has. -/
theorem Meets.parseTokens {window : TokenStream} {good : List Node → ParserState → Prop}
    {bad : Diagnostic → ParserState → Prop} {lost : Abort → Prop}
    (h : (program .standard).Meets { window } good bad lost) :
    match parseTokens window with
    | .ok parsed => (∃ after, good parsed.statements after ∧ parsed.diagnostics = after.diagnostics) ∨
        ∃ diagnostic after, bad diagnostic after ∧ parsed = ⟨[], after.diagnostics ++ [diagnostic]⟩
    | .error cause => lost cause := by
  unfold Meets at h
  unfold MonkeyLang.parseTokens settle
  cases hrun : program .standard { window } with
  | ok trees after =>
    rw [hrun] at h
    exact .inl ⟨after, h, rfl⟩
  | error stop after =>
    rw [hrun] at h
    cases stop with
    | malformed diagnostic => exact .inr ⟨diagnostic, after, h, rfl⟩
    | abort cause => exact h

theorem exists_parsed {window : TokenStream} {good : List Node → ParserState → Prop}
    {bad : Diagnostic → ParserState → Prop}
    (h : (program .standard).Meets { window } good bad fun _ => False) :
    ∃ parsed, parseTokens window = .ok parsed ∧
      ((∃ after, good parsed.statements after ∧ parsed.diagnostics = after.diagnostics) ∨
        ∃ diagnostic after, bad diagnostic after ∧
          parsed = ⟨[], after.diagnostics ++ [diagnostic]⟩) := by
  have houtcome := h.parseTokens
  cases hparsed : parseTokens window with
  | ok parsed =>
    rw [hparsed] at houtcome
    exact ⟨parsed, rfl, houtcome⟩
  | error cause =>
    rw [hparsed] at houtcome
    exact houtcome.elim

/-- What the parser of whole texts gives, the statements of a text are; a text that has no list of
statements at all has none. -/
theorem Gives.of_parsed {window : TokenStream} {good : List Node → ParserState → Prop}
    (h : (program .standard).Gives { window } good) {parsed : Parsed}
    (hparsed : parseTokens window = .ok parsed) :
    (∃ after, good parsed.statements after) ∨ parsed.statements = [] := by
  unfold Gives Meets at h
  unfold parseTokens settle at hparsed
  cases hrun : program .standard { window } with
  | ok trees after =>
    rw [hrun] at h hparsed
    cases hparsed
    exact .inl ⟨after, h⟩
  | error stop after =>
    rw [hrun] at hparsed
    cases stop with
    | malformed diagnostic =>
      cases hparsed
      exact .inr rfl
    | abort cause => cases hparsed

/-- The run of a text that has no diagnostics. -/
theorem exists_run_of_silent {window : TokenStream} {trees : List Node}
    (h : parseTokens window = .ok ⟨trees, []⟩) :
    ∃ after, program .standard { window } = .ok trees after ∧ after.diagnostics = [] := by
  unfold parseTokens settle at h
  cases hrun : program .standard { window } with
  | ok found after =>
    rw [hrun] at h
    have hparsed := Except.ok.inj h
    have hfound : found = trees := congrArg Parsed.statements hparsed
    exact ⟨after, by rw [hfound], congrArg Parsed.diagnostics hparsed⟩
  | error stop after =>
    rw [hrun] at h
    cases stop with
    | malformed diagnostic =>
      have hdiagnostics := congrArg Parsed.diagnostics (Except.ok.inj h)
      exact absurd hdiagnostics (List.append_ne_nil_of_right_ne_nil _ (by simp))
    | abort cause => cases h

/-! ## Parsers only go forward -/

/-- A property of states that lasts as a parse goes on. -/
structure Standing where
  holds : ParserState → Prop
  lasts : ∀ {before after : ParserState}, holds before → before.Later after → holds after

/-- The property that every state has. -/
def Standing.any : Standing := ⟨fun _ => True, fun _ _ => True.intro⟩

/-- Started in a state with the property, the parser ends in a later state, and it gives up for none
but the allowed reasons. -/
def Forward (able : Standing) (lost : Abort → Prop) (parser : Parser α) : Prop :=
  ∀ state, able.holds state → parser.Meets state (fun _ after => state.Later after)
    (fun _ after => state.Later after) lost

namespace Forward

variable {able : Standing} {lost : Abort → Prop} {parser : Parser α} {next : α → Parser β}

theorem pure (a : α) : Forward able lost (Pure.pure a : Parser α) :=
  fun state _ => .refl state

theorem bind (h : Forward able lost parser) (h' : ∀ a, Forward able lost (next a)) :
    Forward able lost (parser >>= next) :=
  fun state hs => meets_bind.2 <| (h state hs).mono
    (fun a t ht => (h' a t (able.lasts hs ht)).mono (fun _ _ => ht.trans) (fun _ _ => ht.trans)
      (fun _ => id))
    (fun _ _ => id) (fun _ => id)

theorem ite {c : Prop} [Decidable c] {first second : Parser α} (h : Forward able lost first)
    (h' : Forward able lost second) : Forward able lost (if c then first else second) := by
  split <;> assumption

theorem current : Forward able lost current := fun state _ => .refl state

theorem upcoming : Forward able lost upcoming := fun state _ => .refl state

theorem remaining : Forward able lost remaining := fun state _ => .refl state

theorem advance : Forward able lost advance := fun state _ => state.later_advance

theorem skipTo (kinds : List TokenKind) : Forward able lost (skipTo kinds) :=
  fun state _ => state.later_skip kinds

theorem fail (fault : Fault) (token : Token) : Forward able lost (fail fault token : Parser α) :=
  fun state _ => .refl state

theorem giveUp {cause : Abort} (h : lost cause) :
    Forward able lost (giveUp cause : Parser α) := fun _ _ => h

theorem gives (h : Forward .any lost parser) (state : ParserState) :
    parser.Gives state fun _ after => state.Later after :=
  (h state True.intro).mono (fun _ _ => id) (fun _ _ _ => True.intro) (fun _ _ => True.intro)

theorem later_of_ok (h : Forward .any lost parser) {state after : ParserState} {a : α}
    (hrun : parser state = .ok a after) : state.Later after := by
  have hlater := (h state True.intro).of_ok hrun
  exact hlater

theorem expect (wanted : TokenKind) : Forward able lost (expect wanted) :=
  .bind .upcoming fun _ => .ite .advance (.fail _ _)

theorem attempt (h : Forward able lost parser) : Forward able lost (attempt parser) :=
  fun state hs => meets_attempt.2 <| (h state hs).mono (fun _ _ => id)
    (fun d t ht => ht.trans (t.later_record d)) (fun _ => id)

end Forward

end Parser

end MonkeyLang
