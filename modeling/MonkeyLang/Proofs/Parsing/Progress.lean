import MonkeyLang.Proofs.Parsing.Concatenation
import MonkeyLang.Proofs.Parsing.Prompt
import MonkeyLang.Proofs.Parsing.Termination
import MonkeyLang.Proofs.Parsing.Watch

/-!
# Parsing makes progress

Nothing makes a parser stop but what it reads.  The end of the text can be read over and over, and a
malformed statement may leave the parser where it is.  So it takes an argument that a parse ends at all, and
a watched one (`MonkeyLang.Proofs.Parsing.Watch`) shows it at work: after each step the window is the one
before it or has consumed one token more (`Walk`), and each round of a loop over statements consumes at
least one (`Round.Advances`).

* `Watched.Observes` says that a watched parser does what the parser does, and that what is seen meanwhile
  is as it should be.  It holds of every parser, whatever the grammar.
* `Grammar.Altered` lists the grammars that come from the standard one by dropping entries, and by reading
  tokens of any kind but the end of the text as operators.  They are all tame, so that no parse is without
  end.
* `program_progresses` is about source texts.
-/

set_option autoImplicit false

namespace MonkeyLang

/-! ## Windows one after the other -/

namespace TokenStream

theorem current_pass (window : TokenStream) (count : Nat) :
    (window.pass count).current = window.nth count :=
  (current_eq_nth _).trans (window.nth_pass count 0)

theorem upcoming_pass (window : TokenStream) (count : Nat) :
    (window.pass count).upcoming = window.nth (count + 1) :=
  (upcoming_eq_nth _).trans (window.nth_pass count 1)

end TokenStream

/-- Windows one after the other, up to the last one.  Each is the one before it, or this one with one more
token consumed. -/
inductive Walk : TokenStream → List TokenStream → TokenStream → Prop
  | stop {window : TokenStream} : Walk window [] window
  | step {window next last : TokenStream} {rest : List TokenStream}
      (hstep : next = window ∨ next = window.advance) (hrest : Walk next rest last) :
      Walk window (next :: rest) last

namespace Walk

variable {window middle last : TokenStream} {windows windows' : List TokenStream}

theorem trans (h : Walk window windows middle) (h' : Walk middle windows' last) :
    Walk window (windows ++ windows') last := by
  induction h with
  | stop => exact h'
  | step hstep _ ih => exact .step hstep (ih h')

/-- The window shows two consecutive tokens all the way. -/
theorem exists_pass {first : TokenStream} {start : Nat} (h : Walk window windows last)
    (hwindow : window = first.pass start) :
    (∀ other ∈ windows, ∃ count, start ≤ count ∧ other = first.pass count) ∧
      ∃ count, start ≤ count ∧ last = first.pass count := by
  induction h generalizing start with
  | stop => exact ⟨List.forall_mem_nil _, start, Nat.le_refl _, hwindow⟩
  | @step window next last rest hstep _ ih =>
    obtain ⟨count, hle, hnext⟩ : ∃ count, start ≤ count ∧ next = first.pass count := by
      rcases hstep with rfl | rfl
      · exact ⟨start, Nat.le_refl _, hwindow⟩
      · exact ⟨start + 1, Nat.le_succ _, by rw [hwindow, TokenStream.advance_pass]⟩
    obtain ⟨hrest, count', hle', hlast⟩ := ih hnext
    refine ⟨List.forall_mem_cons.2 ⟨⟨count, hle, hnext⟩, fun other hother => ?_⟩, count',
      Nat.le_trans hle hle', hlast⟩
    obtain ⟨count'', hle'', hother⟩ := hrest other hother
    exact ⟨count'', Nat.le_trans hle hle'', hother⟩

theorem eq_pass (h : Walk window windows last) : ∃ count, last = window.pass count := by
  obtain ⟨-, count, -, hlast⟩ := @exists_pass _ _ _ window 0 h rfl
  exact ⟨count, hlast⟩

end Walk

/-- A round begins in front of the end of the text and consumes at least one token. -/
def Round.Advances (round : Round) : Prop :=
  round.start.current.kind ≠ .eof ∧
    ∃ consumed, consumed ≠ [] ∧ round.start.ahead = consumed ++ round.finish.ahead

theorem Round.advances_pass {window : TokenStream} (hkind : window.current.kind ≠ .eof)
    (hlast : window.last.kind = .eof) (count : Nat) :
    Round.Advances ⟨window, window.pass (count + 1)⟩ := by
  refine ⟨hkind, window.ahead.take (count + 1), ?_, (List.take_append_drop _ _).symm⟩
  rw [TokenStream.ahead_eq_cons hlast hkind]
  exact List.cons_ne_nil _ _

/-- What has been seen in addition: windows one after the other, and rounds that advance, each of which
came to its end. -/
structure Watch.Later (before after : Watch) : Prop where
  shown : ∃ more, after.shown = before.shown ++ more ∧
    Walk before.state.window more after.state.window
  rounds : ∃ more, after.rounds = before.rounds ++ more ∧ ∀ round ∈ more, round.Advances
  begun : after.begun + before.rounds.length = before.begun + after.rounds.length

namespace Watch

variable {before middle after : Watch}

theorem Later.refl (watch : Watch) : Later watch watch :=
  ⟨⟨[], (List.append_nil _).symm, .stop⟩,
    ⟨[], (List.append_nil _).symm, List.forall_mem_nil _⟩, rfl⟩

theorem Later.trans (h : Later before middle) (h' : Later middle after) : Later before after := by
  obtain ⟨windows, hwindows, hwalk⟩ := h.shown
  obtain ⟨windows', hwindows', hwalk'⟩ := h'.shown
  obtain ⟨rounds, hrounds, hadvance⟩ := h.rounds
  obtain ⟨rounds', hrounds', hadvance'⟩ := h'.rounds
  refine ⟨⟨_, by rw [hwindows', hwindows, List.append_assoc], hwalk.trans hwalk'⟩,
    ⟨_, by rw [hrounds', hrounds, List.append_assoc],
      List.forall_mem_append.2 ⟨hadvance, hadvance'⟩⟩, ?_⟩
  have := h.begun
  have := h'.begun
  omega

theorem Later.window (h : Later before after) :
    ∃ count, after.state.window = before.state.window.pass count := by
  obtain ⟨_, -, hwalk⟩ := h.shown
  exact hwalk.eq_pass

theorem Later.last (h : Later before after) : after.state.window.last = before.state.window.last := by
  obtain ⟨count, hwindow⟩ := h.window
  rw [hwindow]
  rfl

/-- The window stays as it is when a diagnostic goes on record. -/
theorem Later.record (h : before.Later after) (diagnostic : Diagnostic) :
    before.Later { after with state := after.state.record diagnostic } :=
  ⟨h.shown, h.rounds, h.begun⟩

/-- A step consumes no token or one. -/
theorem later_step (watch : Watch) {state : ParserState}
    (hstep : state.window = watch.state.window ∨ state.window = watch.state.window.advance) :
    watch.Later (watch.step state) :=
  ⟨⟨[state.window], rfl, .step hstep .stop⟩,
    ⟨[], (List.append_nil _).symm, List.forall_mem_nil _⟩, rfl⟩

theorem later_look (watch : Watch) : watch.Later (watch.step watch.state) :=
  watch.later_step (.inl rfl)

theorem later_advance (watch : Watch) : watch.Later (watch.step watch.state.advance) :=
  watch.later_step (.inr rfl)

/-- A round that begins in a window and ends in another one, with rounds of inner loops in between. -/
theorem Later.round (h : before.beginRound.Later after)
    (hadvance : Round.Advances ⟨before.state.window, after.state.window⟩) :
    before.Later (after.endRound before.state.window) := by
  obtain ⟨rounds, hrounds, hinner⟩ := h.rounds
  refine ⟨h.shown, ⟨rounds ++ [_], by rw [endRound, hrounds, List.append_assoc]; rfl,
    List.forall_mem_append.2 ⟨hinner, List.forall_mem_singleton.2 hadvance⟩⟩, ?_⟩
  have hbegun : after.begun + before.rounds.length = before.begun + 1 + after.rounds.length := h.begun
  show after.begun + before.rounds.length = before.begun + (after.rounds ++ [_]).length
  rw [List.length_append, List.length_singleton]
  omega

/-- Where tokens are left, advancing at the end of a round consumes one. -/
theorem Later.advances (h : before.Later after) (hkind : before.state.window.current.kind ≠ .eof)
    (hlast : before.state.window.last.kind = .eof) :
    Round.Advances ⟨before.state.window, after.state.window.advance⟩ := by
  obtain ⟨count, hwindow⟩ := h.window
  rw [hwindow, TokenStream.advance_pass]
  exact Round.advances_pass hkind hlast count

/-- Where another token is the current one now, one is consumed. -/
theorem Later.advances_of_ne (h : before.Later after) (hkind : before.state.window.current.kind ≠ .eof)
    (hlast : before.state.window.last.kind = .eof)
    (hne : after.state.window.current.kind ≠ before.state.window.current.kind) :
    Round.Advances ⟨before.state.window, after.state.window⟩ := by
  obtain ⟨count, hwindow⟩ := h.window
  cases count with
  | zero => exact absurd (by rw [hwindow]; rfl) hne
  | succ count =>
    rw [hwindow]
    exact Round.advances_pass hkind hlast count

end Watch

/-! ## Single steps -/

namespace ParserState

variable {kinds : List TokenKind} {state : ParserState}

/-- Where skipping stops at once. -/
theorem skip_eq_self (state : ParserState) (h : ∀ token ∈ state.window.ahead.head?,
    (token.kind = .semicolon || token.kind ∈ kinds) = true) : state.skip kinds = state := by
  obtain ⟨⟨_ | ⟨token, rest⟩, last⟩, diagnostics⟩ := state
  · rfl
  · have hstop : (!(token.kind = .semicolon || token.kind ∈ kinds)) = false := by rw [h token rfl]; rfl
    rw [skip, List.dropWhile_cons, hstop]
    rfl

/-- Where skipping does not stop, it goes on from the next token. -/
theorem skip_eq_skip_advance (state : ParserState) {token : Token} {rest : List Token}
    (hahead : state.window.ahead = token :: rest)
    (h : (token.kind = .semicolon || token.kind ∈ kinds) = false) :
    state.skip kinds = state.advance.skip kinds := by
  have hpass : (!(token.kind = .semicolon || token.kind ∈ kinds)) = true := by rw [h]; rfl
  rw [skip, skip, ahead_advance, hahead, List.dropWhile_cons, hpass]
  rfl

end ParserState

namespace Parser

variable {α β : Type} {limit : Nat} {parser : Parser α} {next : α → Parser β}

/-- However the parser ends, it has consumed so many tokens at most. -/
def Moves (limit : Nat) (parser : Parser α) : Prop :=
  ∀ state, match parser state with
    | .ok _ after | .error _ after => ∃ count, count ≤ limit ∧ after.window = state.window.pass count

namespace Moves

theorem pure (a : α) : Moves limit (Pure.pure a : Parser α) := fun _ => ⟨0, Nat.zero_le _, rfl⟩

theorem stop (stop : Stop) : Moves limit (throw stop : Parser α) := fun _ => ⟨0, Nat.zero_le _, rfl⟩

theorem current : Moves 0 current := fun _ => ⟨0, Nat.le_refl _, rfl⟩

theorem upcoming : Moves 0 upcoming := fun _ => ⟨0, Nat.le_refl _, rfl⟩

theorem remaining : Moves 0 remaining := fun _ => ⟨0, Nat.le_refl _, rfl⟩

theorem advance : Moves 1 advance := fun state =>
  ⟨1, Nat.le_refl 1, state.window.advance_pass 0⟩

theorem mono {limit' : Nat} (h : Moves limit parser) (hle : limit ≤ limit') : Moves limit' parser := by
  intro state
  have hparser := h state
  revert hparser
  cases parser state with
  | ok a after | error stop after => exact fun ⟨count, hcount, hwindow⟩ =>
      ⟨count, Nat.le_trans hcount hle, hwindow⟩

theorem bind {limit' : Nat} (h : Moves limit parser) (h' : ∀ a, Moves limit' (next a)) :
    Moves (limit + limit') (parser >>= next) := by
  intro state
  have hfirst := h state
  simp only [Bind.bind, EStateM.bind]
  revert hfirst
  cases parser state with
  | error stop middle => exact fun ⟨count, hle, hwindow⟩ =>
      ⟨count, Nat.le_trans hle (Nat.le_add_right _ _), hwindow⟩
  | ok a middle =>
    rintro ⟨count, hle, hwindow⟩
    have hnext := h' a middle
    simp only
    revert hnext
    cases next a middle with
    | ok b after | error stop after =>
      rintro ⟨count', hle', hwindow'⟩
      refine ⟨count + count', Nat.add_le_add hle hle', ?_⟩
      rw [hwindow', hwindow, TokenStream.pass_pass]

/-- Looking at the window consumes nothing. -/
theorem look (h : Moves 0 parser) (h' : ∀ a, Moves limit (next a)) : Moves limit (parser >>= next) :=
  (bind h h').mono (Nat.le_of_eq (Nat.zero_add limit))

theorem ite {c : Prop} [Decidable c] {other : Parser α} (h : Moves limit parser)
    (h' : Moves limit other) : Moves limit (if c then parser else other) := by
  split <;> assumption

theorem name : Moves 0 name :=
  look current fun _ => pure _

theorem reference : Moves 0 reference :=
  look name fun _ => pure _

theorem boolean : Moves 0 boolean :=
  look current fun _ => pure _

theorem integer : Moves 0 integer := by
  refine look current fun token => ?_
  split
  · exact stop _
  · exact ite (stop _) (ite (stop _) (pure _))

theorem expect (wanted : TokenKind) : Moves 1 (expect wanted) :=
  look upcoming fun _ => ite advance (stop _)

theorem parameter : Moves 1 parameter :=
  bind (expect _) fun _ => name

theorem closeStatement : Moves 1 closeStatement :=
  look upcoming fun _ => ite advance (pure _)

end Moves

end Parser

/-! ## What is seen -/

/-- How a run ends, without what was seen. -/
def unwatched {α : Type} : EStateM.Result Stop Watch α → EStateM.Result Stop ParserState α
  | .ok a after => .ok a after.state
  | .error stop after => .error stop after.state

namespace Watched

variable {α β : Type} {watch : Watch}

/-- However the watched parser ends, the property for that way of ending holds, unless the parse is given
up. -/
def Meets (watched : Watched α) (watch : Watch) (good : α → Watch → Prop)
    (bad : Diagnostic → Watch → Prop) : Prop :=
  match watched watch with
  | .ok a after => good a after
  | .error (.malformed diagnostic) after => bad diagnostic after
  | .error (.abort _) _ => True

section Rules

variable {watched : Watched α} {good : α → Watch → Prop} {bad : Diagnostic → Watch → Prop}

theorem Meets.mono {good' : α → Watch → Prop} {bad' : Diagnostic → Watch → Prop}
    (h : watched.Meets watch good bad) (hgood : ∀ a after, good a after → good' a after)
    (hbad : ∀ diagnostic after, bad diagnostic after → bad' diagnostic after) :
    watched.Meets watch good' bad' := by
  unfold Meets at h ⊢
  split at h
  · exact hgood _ _ h
  · exact hbad _ _ h
  · exact True.intro

theorem meets_bind {next : α → Watched β} {good : β → Watch → Prop} :
    Meets (watched >>= next) watch good bad ↔
      watched.Meets watch (fun a after => (next a).Meets after good bad) bad := by
  simp only [Meets, bind, EStateM.bind]
  cases watched watch with
  | ok a after => rfl
  | error stop after => cases stop <;> rfl

theorem meets_ite {c : Prop} [Decidable c] {other : Watched α} :
    Meets (if c then watched else other) watch good bad ↔
      (c → watched.Meets watch good bad) ∧ (¬c → other.Meets watch good bad) := by
  split <;> simp_all

theorem meets_current {good : Token → Watch → Prop} :
    (lift Parser.current).Meets watch good bad ↔
      good watch.state.window.current (watch.step watch.state) := Iff.rfl

theorem meets_advance {good : Unit → Watch → Prop} :
    (lift Parser.advance).Meets watch good bad ↔ good () (watch.step watch.state.advance) := Iff.rfl

theorem meets_beginRound {good : TokenStream → Watch → Prop} :
    beginRound.Meets watch good bad ↔ good watch.state.window watch.beginRound := Iff.rfl

theorem meets_endRound {start : TokenStream} {good : Unit → Watch → Prop} :
    (endRound start).Meets watch good bad ↔ good () (watch.endRound start) := Iff.rfl

theorem meets_attempt {good : Option α → Watch → Prop} :
    (attempt watched).Meets watch good bad ↔
      watched.Meets watch (fun a after => good (some a) after) fun diagnostic after =>
        good none { after with state := after.state.record diagnostic } := by
  simp only [Meets, attempt]
  cases watched watch with
  | ok a after => rfl
  | error stop after => cases stop <;> rfl

end Rules

/-! ### Windows and rounds -/

theorem skip_meets (kinds : List TokenKind) : ∀ (count : Nat) (watch : Watch),
    (skip kinds count).Meets watch (fun _ after => watch.Later after) fun _ _ => False
  | 0, watch => .refl watch
  | count + 1, watch => by
    rw [skip, meets_bind, meets_current, meets_ite, meets_bind, meets_advance]
    have hadvance := watch.later_look.trans (watch.step watch.state).later_advance
    exact ⟨fun _ => watch.later_look, fun _ => (skip_meets kinds count _).mono (fun _ _ => hadvance.trans)
      fun _ _ => id⟩

theorem skipTo_meets (kinds : List TokenKind) (watch : Watch) :
    (skipTo kinds).Meets watch (fun _ after => watch.Later after) fun _ _ => False :=
  meets_bind.2 <| (skip_meets kinds _ _).mono (fun _ _ => watch.later_look.trans)
    fun _ _ => id

/-- What is seen of the parser is as it should be. -/
def Leads (watched : Watched α) : Prop :=
  ∀ watch : Watch, watch.state.window.last.kind = .eof →
    watched.Meets watch (fun _ after => watch.Later after) fun _ after => watch.Later after

namespace Leads

variable {watched : Watched α} {next : α → Watched β}

theorem pure (a : α) : Leads (Pure.pure a : Watched α) :=
  fun watch _ => .refl watch

theorem bind (h : Leads watched) (h' : ∀ a, Leads (next a)) : Leads (watched >>= next) :=
  fun watch hlast => meets_bind.2 <| (h watch hlast).mono
    (fun a _ ht => (h' a _ (ht.last ▸ hlast)).mono (fun _ _ => ht.trans) fun _ _ => ht.trans)
    fun _ _ => id

theorem ite {c : Prop} [Decidable c] {other : Watched α} (h : Leads watched) (h' : Leads other) :
    Leads (if c then watched else other) := by
  split <;> assumption

/-- What consumes at most one token is one step. -/
theorem lift {parser : Parser α} (h : parser.Moves 1) : Leads (lift parser) := by
  intro watch hlast
  have hmoves := h watch.state
  unfold Meets Watched.lift
  revert hmoves
  have hstep : ∀ state : ParserState,
      (∃ count, count ≤ 1 ∧ state.window = watch.state.window.pass count) →
        watch.Later (watch.step state) := by
    rintro state ⟨_ | _ | count, hle, hwindow⟩
    · exact watch.later_step (.inl hwindow)
    · exact watch.later_step (.inr (hwindow.trans (watch.state.window.advance_pass 0).symm))
    · omega
  cases parser watch.state with
  | ok a state => exact hstep state
  | error stop state =>
    cases stop with
    | malformed diagnostic => exact hstep state
    | abort cause => exact fun _ => True.intro

/-- A step that only looks at the window. -/
theorem look {parser : Parser α} (h : parser.Moves 0) : Leads (Watched.lift parser) :=
  lift (h.mono (Nat.zero_le 1))

/-- Each round of the loop advances: past the end of a statement, or, where a block ends behind a malformed
statement, from some other token on to the one that ends the block. -/
theorem statementsWith {parts : WatchedParts} (h : Leads (statement parts)) (closing : List TokenKind) :
    ∀ rounds, Leads (statementsWith parts closing rounds)
  | 0 => look (.stop (.abort .endless))
  | rounds + 1 => by
    intro watch hlast
    rw [Watched.statementsWith, meets_bind, meets_current, meets_ite]
    have hlook := watch.later_look
    refine ⟨fun _ => hlook, fun hopen => ?_⟩
    simp only [Bool.or_eq_true, decide_eq_true_eq, not_or] at hopen
    obtain ⟨hkind, hclosing⟩ := hopen
    -- what is read after a round is later than what was seen before it
    have goOn : ∀ after : Watch, watch.Later after → (Watched.statementsWith parts closing rounds).Meets
        after (fun _ last => watch.Later last) fun _ last => watch.Later last := fun after hafter =>
      (statementsWith h closing rounds after (hafter.last ▸ hlast)).mono (fun _ _ => hafter.trans)
        fun _ _ => hafter.trans
    rw [meets_bind, meets_beginRound, meets_bind, meets_attempt]
    refine (h (watch.step watch.state).beginRound hlast).mono (fun first after hafter => ?_)
      fun diagnostic after hafter => ?_
    · simp only [meets_bind, meets_advance, meets_endRound]
      have hround := (hafter.trans after.later_advance).round
        (hafter.advances hkind hlast)
      exact (goOn _ (hlook.trans hround)).mono (fun _ _ => id) fun _ _ => id
    · rw [meets_bind]
      refine (skipTo_meets closing _).mono (fun _ skipped hskipped => ?_) fun _ _ => False.elim
      simp only [meets_bind, meets_current, meets_ite, meets_advance, meets_endRound]
      have hstep := ((hafter.record diagnostic).trans hskipped).trans skipped.later_look
      refine ⟨fun hends => hlook.trans (hstep.round ?_), fun _ => goOn _ (hlook.trans ?_)⟩
      · -- the round did not begin on a token that closes the list, so it has come to another one
        exact hstep.advances_of_ne hkind hlast fun hsame => hclosing (hsame ▸ hends)
      · exact (hstep.trans (Watch.later_advance _)).round (hstep.advances hkind hlast)

end Leads

/-! ### The same parse -/

/-- What is done is what the parser does that is not watched. -/
def Erases (watched : Watched α) (parser : Parser α) : Prop :=
  ∀ watch, unwatched (watched watch) = parser watch.state

namespace Erases

variable {watched : Watched α} {parser : Parser α} {next : α → Watched β} {next' : α → Parser β}

theorem pure (a : α) : Erases (Pure.pure a) (Pure.pure a) :=
  fun _ => rfl

theorem bind (h : Erases watched parser) (h' : ∀ a, Erases (next a) (next' a)) :
    Erases (watched >>= next) (parser >>= next') := by
  intro watch
  simp only [Bind.bind, EStateM.bind, ← h watch]
  cases watched watch with
  | ok a middle => exact h' a middle
  | error stop middle => rfl

theorem ite {c : Prop} [Decidable c] {other : Watched α} {other' : Parser α} (h : Erases watched parser)
    (h' : Erases other other') :
    Erases (if c then watched else other) (if c then parser else other') := by
  split <;> assumption

theorem lift (parser : Parser α) : Erases (lift parser) parser := by
  intro watch
  rw [Watched.lift]
  cases parser watch.state <;> rfl

theorem attempt (h : Erases watched parser) : Erases (attempt watched) (Parser.attempt parser) := by
  intro watch
  simp only [Watched.attempt, Parser.attempt, ← h watch]
  cases watched watch with
  | ok a after => rfl
  | error stop after => cases stop <;> rfl

/-- Token by token one comes to where all tokens that do not count are dropped. -/
theorem skip (kinds : List TokenKind) : ∀ (count : Nat) (watch : Watch),
    watch.state.window.ahead.length = count →
      unwatched (skip kinds count watch) = .ok () (watch.state.skip kinds)
  | 0, watch, hcount => by
    rw [watch.state.skip_eq_self fun token htoken => by
      rw [List.length_eq_zero_iff.1 hcount] at htoken
      cases htoken]
    rfl
  | count + 1, watch, hcount => by
    obtain ⟨token, rest, hahead⟩ := List.exists_cons_of_length_eq_add_one hcount
    have hcurrent : watch.state.window.current = token := by
      rw [TokenStream.current, hahead, List.headD_cons]
    -- to look at the token is a step of its own, which leaves the state as it is
    have hrun : Watched.skip kinds (count + 1) watch =
      (if token.kind = .semicolon || token.kind ∈ kinds then Pure.pure () else
        Watched.lift Parser.advance >>= fun _ => Watched.skip kinds count : Watched Unit)
          (watch.step watch.state) := by rw [← hcurrent]; rfl
    rw [hrun]
    split
    · rename_i hstop
      rw [watch.state.skip_eq_self (by rw [hahead]; rintro _ ⟨⟩; exact hstop)]
      rfl
    · rename_i hpass
      have hrest : watch.state.advance.window.ahead.length = count := by
        rw [ParserState.ahead_advance, List.length_tail, hcount, Nat.add_sub_cancel]
      rw [watch.state.skip_eq_skip_advance hahead (Bool.eq_false_iff.2 hpass)]
      exact skip kinds count _ hrest

theorem skipTo (kinds : List TokenKind) : Erases (skipTo kinds) (Parser.skipTo kinds) :=
  fun watch => skip kinds _ (watch.step watch.state) rfl

/-! Beginning and ending a round is nothing that the parser does. -/

theorem beginRound {next : TokenStream → Watched α} (h : ∀ start, Erases (next start) parser) :
    Erases (beginRound >>= next) parser :=
  fun watch => h _ watch.beginRound

theorem endRound {start : TokenStream} {next : Unit → Watched α} (h : Erases (next ()) parser) :
    Erases (endRound start >>= next) parser :=
  fun watch => h (watch.endRound start)

theorem statementsWith {parts : WatchedParts} {parts' : Parts}
    (h : Erases (statement parts) (Parser.statement parts')) (closing : List TokenKind) : ∀ rounds,
    Erases (statementsWith parts closing rounds) (Parser.statementsWith parts' closing rounds)
  | 0 => lift _
  | rounds + 1 => by
    refine bind (lift _) fun token => ite (pure _) <| beginRound fun start => bind (attempt h) ?_
    rintro (_ | first)
    · exact bind (skipTo _) fun _ => bind (lift _) fun _ => ite (endRound (pure _)) <|
        bind (lift _) fun _ => endRound (statementsWith h closing rounds)
    · exact bind (lift _) fun _ => endRound <| bind (statementsWith h closing rounds) fun _ => pure _

end Erases

/-- The watched parser does what the parser does, and what is seen is as it should be. -/
structure Observes (watched : Watched α) (parser : Parser α) : Prop where
  erases : Erases watched parser
  leads : Leads watched

/-- The parsers for the parts of a construct are observed. -/
structure PartsObserve (watched : WatchedParts) (parts : Parts) : Prop where
  expression : ∀ threshold, Observes (watched.expression threshold) (parts.expression threshold)
  block : Observes watched.block parts.block

namespace Observes

variable {watched : Watched α} {parser : Parser α} {next : α → Watched β} {next' : α → Parser β}

theorem pure (a : α) : Observes (Pure.pure a) (Pure.pure a) :=
  ⟨.pure a, .pure a⟩

theorem bind (h : Observes watched parser) (h' : ∀ a, Observes (next a) (next' a)) :
    Observes (watched >>= next) (parser >>= next') :=
  ⟨.bind h.erases fun a => (h' a).erases, .bind h.leads fun a => (h' a).leads⟩

theorem ite {c : Prop} [Decidable c] {other : Watched α} {other' : Parser α}
    (h : Observes watched parser) (h' : Observes other other') :
    Observes (if c then watched else other) (if c then parser else other') :=
  ⟨.ite h.erases h'.erases, .ite h.leads h'.leads⟩

theorem lift (h : parser.Moves 1) : Observes (Watched.lift parser) parser :=
  ⟨.lift parser, .lift h⟩

theorem look (h : parser.Moves 0) : Observes (Watched.lift parser) parser :=
  ⟨.lift parser, .look h⟩

/-! ### The constructs -/

theorem items {item : Watched α} {item' : Parser α} (h : Observes item item') :
    ∀ rounds, Observes (items item rounds) (Parser.items item' rounds)
  | 0 => look (.stop _)
  | rounds + 1 => bind h fun _ => bind (look .upcoming) fun _ => ite
    (bind (lift .advance) fun _ => bind (items h rounds) fun _ => pure _) (pure _)

theorem parenthesized {item : Watched α} {item' : Parser α} (h : Observes item item') :
    Observes (parenthesized item) (Parser.parenthesized item') :=
  bind (look .upcoming) fun _ => ite (bind (lift .advance) fun _ => pure _) <|
    bind (look .remaining) fun _ => bind (items h _) fun _ => bind (lift (.expect _)) fun _ => pure _

variable {parts : WatchedParts} {parts' : Parts} (h : PartsObserve parts parts')
include h

theorem argument : Observes (argument parts) (Parser.argument parts') :=
  bind (lift .advance) fun _ => h.expression _

theorem unary : Observes (unary parts) (Parser.unary parts') :=
  bind (look .current) fun _ => bind (lift .advance) fun _ => bind (h.expression _) fun _ => pure _

theorem group : Observes (group parts) (Parser.group parts') :=
  bind (lift .advance) fun _ => bind (h.expression _) fun _ => bind (lift (.expect _)) fun _ => pure _

theorem conditional : Observes (conditional parts) (Parser.conditional parts') :=
  bind (look .current) fun _ => bind (lift (.expect _)) fun _ => bind (lift .advance) fun _ =>
    bind (h.expression _) fun _ => bind (lift (.expect _)) fun _ => bind (lift (.expect _)) fun _ =>
    bind h.block fun _ => bind (look .upcoming) fun _ => ite
      (bind (lift .advance) fun _ => bind (lift (.expect _)) fun _ => bind h.block fun _ => pure _)
      (pure _)

theorem function : Observes (function parts) (Parser.function parts') :=
  bind (look .current) fun _ => bind (lift (.expect _)) fun _ =>
    bind (parenthesized (lift .parameter)) fun _ => bind (lift (.expect _)) fun _ =>
    bind h.block fun _ => pure _

theorem opening : ∀ kind, Observes (opening parts kind) (Parser.opening parts' kind)
  | .reference => look .reference
  | .integer => look .integer
  | .boolean => look .boolean
  | .unary => unary h
  | .group => group h
  | .conditional => conditional h
  | .function => function h

theorem continuation : ∀ kind left,
    Observes (continuation parts kind left) (Parser.continuation parts' kind left)
  | .binary, _ => bind (look .current) fun _ => bind (lift .advance) fun _ =>
    bind (h.expression _) fun _ => pure _
  | .call, _ => bind (look .current) fun _ => bind (parenthesized (argument h)) fun _ => pure _

theorem climb (grammar : Grammar) (threshold : Precedence) : ∀ rounds left,
    Observes (climb grammar parts threshold rounds left)
      (Parser.climb grammar parts' threshold rounds left)
  | 0, _ => look (.stop _)
  | rounds + 1, left => by
    refine bind (look .upcoming) fun token => ite ?_ (pure _)
    generalize grammar.continuation? token.kind = kind
    cases kind with
    | none => exact pure _
    | some kind =>
      exact bind (lift .advance) fun _ => bind (continuation h _ _) fun _ =>
        climb grammar threshold rounds _

theorem expressionWith (grammar : Grammar) (threshold : Precedence) :
    Observes (expressionWith grammar parts threshold)
      (Parser.expressionWith grammar parts' threshold) := by
  refine bind (look .current) fun token => ?_
  generalize grammar.opening? token.kind = kind
  cases kind with
  | none => exact look (.stop _)
  | some kind =>
    exact bind (opening h _) fun _ => bind (look .remaining) fun _ => climb h grammar threshold _ _

theorem statement : Observes (statement parts) (Parser.statement parts') := by
  refine bind (look .current) fun token => ?_
  generalize token.kind = kind
  cases kind with
  | letWord =>
    exact bind (look .current) fun _ => bind (lift (.expect _)) fun _ => bind (look .name) fun _ =>
      bind (lift (.expect _)) fun _ => bind (lift .advance) fun _ => bind (h.expression _) fun _ =>
      bind (lift .closeStatement) fun _ => pure _
  | returnWord =>
    exact bind (look .current) fun _ => bind (lift .advance) fun _ => bind (h.expression _) fun _ =>
      bind (lift .closeStatement) fun _ => pure _
  | _ =>
    exact bind (look .current) fun _ => bind (h.expression _) fun _ =>
      bind (lift .closeStatement) fun _ => pure _

theorem statementsWith (closing : List TokenKind) (rounds : Nat) :
    Observes (statementsWith parts closing rounds) (Parser.statementsWith parts' closing rounds) :=
  ⟨.statementsWith (statement h).erases closing rounds,
    .statementsWith (statement h).leads closing rounds⟩

theorem blockWith : Observes (blockWith parts) (Parser.blockWith parts') :=
  bind (look .current) fun _ => bind (lift .advance) fun _ => bind (look .remaining) fun _ =>
    bind (statementsWith h _ _) fun _ => pure _

end Observes

theorem observe_upTo (grammar : Grammar) : ∀ depth,
    PartsObserve (.upTo grammar depth) (.upTo grammar depth)
  | 0 => ⟨fun _ => .look (.stop (.abort .endless)), .look (.stop (.abort .endless))⟩
  | depth + 1 =>
    ⟨fun threshold => .expressionWith (observe_upTo grammar depth) grammar threshold,
      .blockWith (observe_upTo grammar depth)⟩

/-- **Watching changes nothing**, and whatever the grammar, each step consumes at most one token and each
round at least one. -/
theorem observes_program (grammar : Grammar) :
    Observes (program grammar) (Parser.program grammar) :=
  .bind (.look .remaining) fun _ => .bind (.look .remaining) fun _ =>
    .statementsWith (observe_upTo grammar _) _ _

end Watched

/-! ## Whole texts -/

/-- The grammars that are made from the standard one, by dropping entries, and by reading tokens of any
kind but the end of the text as operators in front of an operand or between two. -/
inductive Grammar.Altered : Grammar → Prop
  | standard : Altered standard
  | dropOpening {grammar : Grammar} (h : Altered grammar) (kind : TokenKind) :
      Altered (grammar.setOpening kind none)
  | dropContinuation {grammar : Grammar} (h : Altered grammar) (kind : TokenKind) :
      Altered (grammar.setContinuation kind none)
  | addUnary {grammar : Grammar} (h : Altered grammar) {kind : TokenKind} (hkind : kind ≠ .eof) :
      Altered (grammar.setOpening kind (some .unary))
  | addBinary {grammar : Grammar} (h : Altered grammar) {kind : TokenKind} (hkind : kind ≠ .eof) :
      Altered (grammar.setContinuation kind (some .binary))

theorem Grammar.Tame.setOpening {grammar : Grammar} (h : grammar.Tame) {kind : TokenKind}
    {opening? : Option Opening} (heof : kind = .eof → opening? = none)
    (hinteger : opening? ≠ some .integer) : (grammar.setOpening kind opening?).Tame where
  eof := by
    dsimp only [Grammar.setOpening]
    split
    · rename_i hkind
      exact heof hkind.symm
    · exact h.eof
  integer other hother := by
    dsimp only [Grammar.setOpening] at hother
    split at hother
    · exact absurd hother hinteger
    · exact h.integer other hother

theorem Grammar.Altered.tame {grammar : Grammar} (h : grammar.Altered) : grammar.Tame := by
  induction h with
  | standard => exact tame_standard
  | dropOpening _ kind ih => exact ih.setOpening (fun _ => rfl) (by simp)
  | addUnary _ hkind ih => exact ih.setOpening (fun heof => absurd heof hkind) (by simp)
  | dropContinuation _ kind ih | addBinary _ hkind ih => exact ⟨ih.eof, ih.integer⟩

/-- What is seen of a parse that comes to the end of a text. -/
structure Watch.Complete (stream : TokenStream) (watch : Watch) : Prop where
  /-- All tokens are consumed, and the current token is the end of the text. -/
  finish : watch.state.window = ⟨[], stream.last⟩ ∧ stream.last.kind = .eof
  /-- From the first window to the last one, each step consumes one token or none. -/
  walk : ∃ windows, watch.shown = stream :: windows ∧ Walk stream windows watch.state.window
  /-- Every window shows two consecutive tokens, the last of which is repeated. -/
  consecutive : ∀ window ∈ watch.shown, ∃ count,
    window.current = stream.nth count ∧ window.upcoming = stream.nth (count + 1)
  /-- All rounds that began came to an end, and consumed a token. -/
  rounds : watch.begun = watch.rounds.length ∧ ∀ round ∈ watch.rounds, round.Advances

/-- **Every parse makes progress and comes to the end of the text.**  Take a source text whose integers are
not too long, and a grammar that is made from the standard one by dropping entries and by adding operators
of any kind but the end of the text.  Then the parse has a result, and watching it changes nothing.  What is
seen is that the window moves over the tokens of the text, one at a time, up to the end, and that each round
of a loop over statements consumes at least one. -/
theorem program_progresses {source : String} {grammar : Grammar} (hgrammar : grammar.Altered)
    (h : ∀ token ∈ Token.scan source.toList,
      token.kind = .int → token.literal.length ≤ digitLimit) :
    ∃ trees watch,
      Parser.program grammar { window := .ofSource source } = .ok trees watch.state ∧
      Watched.program grammar (.start (.ofSource source)) = .ok trees watch ∧
      watch.Complete (.ofSource source) := by
  let stream : TokenStream := .ofSource source
  have hended : stream.Ended := TokenStream.ended_ofSource source
  obtain ⟨trees, after, hprogram, hkind, hlater⟩ := Parser.exists_program_of_tame hgrammar.tame
    hended.last fun token htoken => Token.legible_of_mem_scan htoken (h token htoken)
  have hwindow : after.window = ⟨[], stream.last⟩ := by
    rw [← (hlater.ended hended).ahead_eq_nil hkind, ← hlater.last]
  -- the parse has a result, so the watched one has the same
  have hobserves := Watched.observes_program grammar
  have hsame := hobserves.erases (.start stream)
  have hleads := hobserves.leads (.start stream) hended.last
  rw [show Parser.program grammar (Watch.start stream).state = .ok trees after from hprogram] at hsame
  unfold Watched.Meets at hleads
  cases hrun : Watched.program grammar (.start stream) with
  | error stop watch =>
    rw [hrun] at hsame
    cases hsame
  | ok found watch =>
    rw [hrun] at hsame hleads
    obtain ⟨rfl, rfl⟩ := EStateM.Result.ok.inj hsame
    obtain ⟨⟨windows, hshown, hwalk⟩, ⟨rounds, hrounds, hadvance⟩, hbegun⟩ := hleads
    have hpass := (@Walk.exists_pass _ _ _ stream 0 hwalk rfl).1
    refine ⟨_, watch, hprogram, rfl, ⟨hwindow, hended.last⟩, ⟨windows, hshown, hwalk⟩, ?_, ?_, ?_⟩
    · rw [hshown]
      refine List.forall_mem_cons.2 ⟨⟨0, stream.current_pass 0, stream.upcoming_pass 0⟩,
        fun window hmem => ?_⟩
      obtain ⟨count, -, rfl⟩ := hpass window hmem
      exact ⟨count, stream.current_pass count, stream.upcoming_pass count⟩
    · have hbegun : watch.begun + 0 = 0 + watch.rounds.length := hbegun
      omega
    · rw [hrounds]
      exact hadvance

/-- A `+` opens an expression here and `fn` does not.  A `&` would continue one, but it binds too
weakly.  Of the six statements that are begun four are malformed, three of them in blocks. -/
theorem program_progresses_altered :
    let source := "if (+x) \x7b let 5; fn \x7d else \x7b & \x7d +7 & 3; y"
    let grammar := ((Grammar.standard.setOpening .plus (some .unary)).setContinuation .band
      (some .binary)).setOpening .function none
    grammar.Altered ∧
      (∀ token ∈ Token.scan source.toList,
        token.kind = .int → token.literal.length ≤ digitLimit) ∧
      (∃ trees watch,
        Parser.program grammar { window := .ofSource source } = .ok trees watch.state ∧
        Watched.program grammar (.start (.ofSource source)) = .ok trees watch ∧
        watch.Complete (.ofSource source)) ∧
      (match Watched.program grammar (.start (.ofSource source)) with
        | .ok trees watch => (trees.length, watch.state.diagnostics.length, watch.rounds.length)
        | .error _ _ => (0, 0, 0)) = (2, 4, 6) := by
  intro source grammar
  have hgrammar : grammar.Altered :=
    .dropOpening (.addBinary (.addUnary .standard (by decide)) (by decide)) _
  have h : ∀ token ∈ Token.scan source.toList,
      token.kind = .int → token.literal.length ≤ digitLimit := by decide +kernel
  exact ⟨hgrammar, h, program_progresses hgrammar h, by decide +kernel⟩

end MonkeyLang
