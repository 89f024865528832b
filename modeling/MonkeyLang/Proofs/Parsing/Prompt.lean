import MonkeyLang.Proofs.Grammar.Beginning
import MonkeyLang.Proofs.Parsing.Forward

/-!
# Parsers report at once

A parser that reads a construct has looked at the next token behind what is read so far, and at
nothing behind that one.  So the first fault is reported at the first token that does not fit, and
whatever stands behind it makes no difference; and what was read before it is the beginning of a
construct.  `Parser.Prompt` says both.

A parser stands on a token that is still to be read, or on one that is read already.  The `gap` is the
number of tokens from where it stands that are read: none or one.

* Blocks go on after a fault, so only the first diagnostic matters (`Parser.Until`).
* Another text that has the same tokens as far as the parser has looked is parsed in the same way.  How
  many rounds a loop may have depends on how many tokens there are in all, though.  So it is parsed by
  another parser, one out of a family that differs only in when it is given up.
-/

set_option autoImplicit false

namespace MonkeyLang

/-! ## Tokens by number -/

/-- The token that is consumed after so many others. -/
def TokenStream.nth (window : TokenStream) (index : Nat) : Token :=
  window.ahead[index]?.getD window.last

/-- The window with some tokens consumed. -/
def TokenStream.pass (window : TokenStream) (count : Nat) : TokenStream :=
  { window with ahead := window.ahead.drop count }

namespace TokenStream

theorem current_eq_nth (window : TokenStream) : window.current = window.nth 0 := by
  rw [current, nth, List.headD_eq_head?_getD, List.head?_eq_getElem?]

theorem upcoming_eq_nth (window : TokenStream) : window.upcoming = window.nth 1 := by
  rw [upcoming, nth, List.headD_eq_head?_getD, List.head?_eq_getElem?, List.getElem?_tail]

theorem nth_pass (window : TokenStream) (count index : Nat) :
    (window.pass count).nth index = window.nth (count + index) := by
  rw [nth, nth, pass, List.getElem?_drop]

theorem pass_pass (window : TokenStream) (count more : Nat) :
    (window.pass count).pass more = window.pass (count + more) := by
  simp only [pass, List.drop_drop]

theorem advance_pass (window : TokenStream) (count : Nat) :
    (window.pass count).advance = window.pass (count + 1) := by
  rw [advance, pass, pass, List.tail_drop]

end TokenStream

namespace ParserState

variable {s t : ParserState} {count more : Nat}

/-- The state with some tokens consumed. -/
def pass (state : ParserState) (count : Nat) : ParserState :=
  { state with window.ahead := state.window.ahead.drop count }

/-- The first tokens of both states are the same. -/
def Agrees (s t : ParserState) (count : Nat) : Prop :=
  ∀ index < count, s.window.nth index = t.window.nth index

/-- The diagnostic is the first one of the list that is not on record yet. -/
def Reports (state : ParserState) (diagnostic : Diagnostic) (diagnostics : List Diagnostic) : Prop :=
  state.diagnostics ++ [diagnostic] <+: diagnostics

/-- The current token has one of the kinds. -/
def StandsOn (kinds : List TokenKind) (state : ParserState) : Prop :=
  state.window.current.kind ∈ kinds

theorem nth_pass (state : ParserState) (count index : Nat) :
    (state.pass count).window.nth index = state.window.nth (count + index) :=
  state.window.nth_pass count index

theorem pass_pass (state : ParserState) (count more : Nat) :
    (state.pass count).pass more = state.pass (count + more) :=
  congrArg (ParserState.mk · _) (state.window.pass_pass count more)

theorem advance_eq_pass (state : ParserState) : state.advance = state.pass 1 := by
  simp only [advance, pass, TokenStream.advance, List.drop_one]

theorem later_pass (state : ParserState) (count : Nat) : state.Later (state.pass count) :=
  ⟨rfl, List.drop_suffix _ _, List.prefix_refl _⟩

theorem Agrees.mono (h : s.Agrees t more) (hle : count ≤ more) : s.Agrees t count :=
  fun index hindex => h index (Nat.lt_of_lt_of_le hindex hle)

theorem Agrees.pass (h : s.Agrees t (count + more)) : (s.pass count).Agrees (t.pass count) more := by
  intro index hindex
  rw [nth_pass, nth_pass]
  exact h _ (Nat.add_lt_add_left hindex count)

theorem Agrees.current (h : s.Agrees t count) (hpos : 0 < count) :
    s.window.current = t.window.current := by
  rw [TokenStream.current_eq_nth, TokenStream.current_eq_nth, h 0 hpos]

theorem Agrees.upcoming (h : s.Agrees t count) (hpos : 1 < count) :
    s.window.upcoming = t.window.upcoming := by
  rw [TokenStream.upcoming_eq_nth, TokenStream.upcoming_eq_nth, h 1 hpos]

end ParserState

namespace Parser

open ParserState

variable {α β : Type}

/-! ## Up to the first diagnostic -/

/-- The parser comes to a result or to a first diagnostic, and the property for it holds, unless the
parse is given up. -/
def Until (parser : Parser α) (state : ParserState) (good : α → ParserState → Prop)
    (bad : Diagnostic → Prop) : Prop :=
  parser.Meets state
    (fun a after => good a after ∨ ∃ d, state.Reports d after.diagnostics ∧ bad d)
    (fun d after => ∃ e, state.Reports e (after.diagnostics ++ [d]) ∧ bad e)
    fun _ => True

section Until

variable {parser : Parser α} {s : ParserState} {good : α → ParserState → Prop}
  {bad : Diagnostic → Prop}

theorem Until.mono {good' : α → ParserState → Prop} {bad' : Diagnostic → Prop}
    (h : parser.Until s good bad) (hgood : ∀ a t, good a t → good' a t)
    (hbad : ∀ d, bad d → bad' d) : parser.Until s good' bad' := by
  refine Meets.mono h (fun a t ha => ?_) (fun d t hd => ?_) fun _ => id
  · rcases ha with ha | ⟨d, hreports, hd⟩
    · exact .inl (hgood a t ha)
    · exact .inr ⟨d, hreports, hbad d hd⟩
  · obtain ⟨e, hreports, he⟩ := hd
    exact ⟨e, hreports, hbad e he⟩

/-- What is reported in the first step stays the first to be reported, for the second one only goes
forward. -/
theorem Until.bind {next : α → Parser β} {good' : β → ParserState → Prop}
    (h : parser.Until s good bad)
    (h' : ∀ a t, good a t → t.diagnostics = s.diagnostics ∧ (next a).Until t good' bad)
    (hforward : ∀ a, (next a).Forward .any fun _ => True) :
    (parser >>= next).Until s good' bad := by
  refine meets_bind.2 (Meets.mono h (fun a t ha => ?_) (fun _ _ => id) fun _ => id)
  rcases ha with ha | ⟨d, hreports, hd⟩
  · obtain ⟨hsame, hnext⟩ := h' a t ha
    simp only [Until, Reports, hsame] at hnext
    exact hnext
  · refine (hforward a t True.intro).mono (fun b u hu => .inr ⟨d, ?_, hd⟩)
      (fun e u hu => ⟨d, ?_, hd⟩) fun _ => id
    · exact hreports.trans hu.diagnostics
    · exact (hreports.trans hu.diagnostics).trans (List.prefix_append _ _)

/-- A diagnostic that goes on record is reported. -/
theorem Until.attempt (h : parser.Until s good bad) :
    (attempt parser).Until s (fun o t => ∃ a, o = some a ∧ good a t) bad := by
  refine meets_attempt.2 (Meets.mono h (fun a t ha => ?_) (fun d t hd => ?_) fun _ => id)
  · exact ha.imp_left fun ha => ⟨a, rfl, ha⟩
  · exact .inr hd

end Until

/-! ## Many parsers up to the first diagnostic -/

section Endings

variable {ι : Type}

/-- What holds when a parser comes to a result: it has read the construct, and the others come to the
same result from every state that agrees as far as the token behind. -/
def Reaches (gap gap' : Nat) (construct : Construct) (others : ι → Parser α) (s : ParserState) (a : α)
    (after : ParserState) : Prop :=
  ∃ count, gap ≤ count + gap' ∧ after = s.pass count ∧
    construct.Complete (s.window.ahead.drop gap) (s.window.ahead.drop (count + gap')) ∧
    ∀ (i : ι) (t : ParserState), s.Agrees t (count + gap' + 1) →
      (others i).Until t (fun b t' => b = a ∧ t' = t.pass count) fun _ => False

/-- What holds when a parser comes to a diagnostic: what stands before the token that it points at is
the beginning of the construct, and the others come to the same diagnostic from every state that agrees
up to this token. -/
def Rejects (gap : Nat) (construct : Construct) (others : ι → Parser α) (s : ParserState)
    (d : Diagnostic) : Prop :=
  ∃ count fault, gap ≤ count ∧ d = .on fault (s.window.nth count) ∧
    construct.Begun (s.window.ahead.drop gap) (s.window.ahead.drop count) ∧
    ∀ (i : ι) (t : ParserState), s.Agrees t (count + 1) →
      (others i).Until t (fun _ _ => False) (· = d)

variable {gap gap' : Nat} {construct construct' : Construct} {others : ι → Parser α}
  {s : ParserState}

theorem Reaches.mono {a : α} {after : ParserState}
    (h : Reaches gap gap' construct others s a after)
    (himp : ∀ input rest, construct input rest → construct' input rest) :
    Reaches gap gap' construct' others s a after := by
  obtain ⟨count, hgap, hpass, hcomplete, hothers⟩ := h
  exact ⟨count, hgap, hpass, hcomplete.mono himp, hothers⟩

theorem Rejects.mono {d : Diagnostic} (h : Rejects gap construct others s d)
    (himp : ∀ input rest, construct input rest → construct' input rest) :
    Rejects gap construct' others s d := by
  obtain ⟨count, fault, hgap, hfault, hbegun, hothers⟩ := h
  exact ⟨count, fault, hgap, hfault, hbegun.mono himp, hothers⟩

/-- The others may be replaced by parsers that do the same on every text with the same tokens, as far
as these are looked at. -/
theorem Until.replace {κ : Type} {others' : κ → Parser α} {first : Parser α}
    {good : α → ParserState → Prop}
    (h : first.Until s (fun a after => good a after ∧ Reaches gap gap' construct others s a after)
      (Rejects gap construct others s))
    (hothers : ∀ {good : α → ParserState → Prop} {bad : Diagnostic → Prop} (k : κ) (t : ParserState)
      (count : Nat), gap < count → s.Agrees t count → (∀ i, (others i).Until t good bad) →
      (others' k).Until t good bad) :
    first.Until s (fun a after => good a after ∧ Reaches gap gap' construct others' s a after)
      (Rejects gap construct others' s) := by
  refine h.mono (fun a after hafter => ⟨hafter.1, ?_⟩) fun d hd => ?_
  · obtain ⟨count, hgap, hpass, hcomplete, hsame⟩ := hafter.2
    exact ⟨count, hgap, hpass, hcomplete, fun k t hagrees =>
      hothers k t _ (Nat.lt_succ_of_le hgap) hagrees fun i => hsame i t hagrees⟩
  · obtain ⟨count, fault, hgap, hfault, hbegun, hsame⟩ := hd
    exact ⟨count, fault, hgap, hfault, hbegun, fun k t hagrees =>
      hothers k t _ (Nat.lt_succ_of_le hgap) hagrees fun i => hsame i t hagrees⟩

end Endings

/-- All parsers read the construct, or report the first token that does not fit, and no token behind it
makes a difference.  They start where `able` holds, with a gap, and end with another gap. -/
structure Prompt {ι : Type} (able : ParserState → Prop) (gap gap' : Nat) (construct : Construct)
    (good : α → ParserState → Prop) (first : Parser α) (others : ι → Parser α) : Prop where
  forward : first.Forward .any fun _ => True
  forward' : ∀ i, (others i).Forward .any fun _ => True
  run : ∀ s : ParserState, s.window.Ended → able s →
    first.Until s (fun a after => good a after ∧ Reaches gap gap' construct others s a after)
      (Rejects gap construct others s)

namespace Prompt

variable {ι : Type} {able able' : ParserState → Prop} {gap gap' gap'' : Nat}
  {construct construct' : Construct} {good : α → ParserState → Prop} {good' : β → ParserState → Prop}
  {first : Parser α} {others : ι → Parser α}

theorem mono {good'' : α → ParserState → Prop} (h : Prompt able gap gap' construct good first others)
    (hable : ∀ s, able' s → able s)
    (hconstruct : ∀ input rest, construct input rest → construct' input rest)
    (hgood : ∀ a s, good a s → good'' a s) :
    Prompt able' gap gap' construct' good'' first others where
  forward := h.forward
  forward' := h.forward'
  run s hended hs := (h.run s hended (hable s hs)).mono
    (fun a after hafter => ⟨hgood a after hafter.1, hafter.2.mono hconstruct⟩)
    fun _ hd => hd.mono hconstruct

theorem imp (h : Prompt able gap gap' construct good first others)
    (hconstruct : ∀ input rest, construct input rest → construct' input rest) :
    Prompt able gap gap' construct' good first others :=
  h.mono (fun _ => id) hconstruct fun _ _ => id

theorem weaken (h : Prompt able gap gap' construct good first others)
    (hable : ∀ s, able' s → able s) : Prompt able' gap gap' construct good first others :=
  h.mono hable (fun _ _ => id) fun _ _ => id

/-- The same holds of some of the parsers, however they are counted. -/
theorem reindex {κ : Type} (f : κ → ι) (h : Prompt able gap gap' construct good first others) :
    Prompt able gap gap' construct good first fun k => others (f k) where
  forward := h.forward
  forward' k := h.forward' (f k)
  run s hended hs := (h.run s hended hs).replace fun k _ _ _ _ hsame => hsame (f k)

/-- What holds wherever the parser starts may be assumed. -/
theorem assuming {p : Prop} (h : ∀ s, able s → p) (hforward : first.Forward .any fun _ => True)
    (hforward' : ∀ i, (others i).Forward .any fun _ => True)
    (hprompt : p → Prompt able gap gap' construct good first others) :
    Prompt able gap gap' construct good first others :=
  ⟨hforward, hforward', fun s hended hs => (hprompt (h s hs)).run s hended hs⟩

/-! ## Giving up -/

theorem giveUp (cause : Abort) (h : ∀ i, (others i).Forward .any fun _ => True) :
    Prompt able gap gap' construct good (giveUp cause) others :=
  ⟨.giveUp True.intro, h, fun _ _ _ => True.intro⟩

/-- Those of the others that have no round left give up. -/
theorem rounds (others : ι → Nat → Parser α) {cause : Abort}
    (hzero : ∀ i, others i 0 = Parser.giveUp cause) (rounds : ι → Nat)
    (h : ∀ {κ : Type} (f : κ → ι) (rounds : κ → Nat),
      Prompt able gap gap' construct good first fun k => others (f k) (rounds k + 1)) :
    Prompt able gap gap' construct good first fun i => others i (rounds i) := by
  have h := h (fun k : { i // rounds i ≠ 0 } => k.1) fun k => rounds k.1 - 1
  have hsucc (k : { i // rounds i ≠ 0 }) : rounds k.1 - 1 + 1 = rounds k.1 :=
    Nat.succ_pred_eq_of_ne_zero k.2
  simp only [hsucc] at h
  have hcases {good : α → ParserState → Prop} {bad : Diagnostic → Prop} {i : ι} {t : ParserState}
      (hsame : ∀ k : { i // rounds i ≠ 0 }, (others k.1 (rounds k.1)).Until t good bad) :
      (others i (rounds i)).Until t good bad := by
    by_cases hi : rounds i = 0
    · rw [hi, hzero]
      exact True.intro
    · exact hsame ⟨i, hi⟩
  refine ⟨h.forward, fun i => ?_, fun s hended hs =>
    (h.run s hended hs).replace fun i _ _ _ _ hsame => hcases hsame⟩
  by_cases hi : rounds i = 0
  · rw [hi, hzero]
    exact .giveUp True.intro
  · exact h.forward' ⟨i, hi⟩

/-! ## One step after the other -/

/-- One construct after the other.  Should the first one be malformed, the second one must not be in the
way of completing it. -/
theorem bind {next : α → Parser β} {next' : ι → α → Parser β}
    (h : Prompt able gap gap' construct good first others) (heasy : construct'.Easy)
    (h' : ∀ a, Prompt (good a) gap' gap'' construct' good' (next a) fun i => next' i a) :
    Prompt able gap gap'' (construct.followedBy construct') good' (first >>= next)
      fun i => others i >>= next' i where
  forward := .bind h.forward fun a => (h' a).forward
  forward' i := .bind (h.forward' i) fun a => (h' a).forward' i
  run s hended hs := by
    have hforward a : (next a).Forward .any fun _ => True := (h' a).forward
    have hforward' i a : (next' i a).Forward .any fun _ => True := (h' a).forward' i
    have hfirst : first.Until s
        (fun a after => good a after ∧ Reaches gap gap' construct others s a after)
        (Rejects gap (construct.followedBy construct') (fun i => others i >>= next' i) s) := by
      refine (h.run s hended hs).mono (fun _ _ => id) fun d hd => ?_
      obtain ⟨count, fault, hgap, hfault, hbegun, hothers⟩ := hd
      exact ⟨count, fault, hgap, hfault, hbegun.followedBy heasy, fun i t hagrees =>
        (hothers i t hagrees).bind (fun _ _ => False.elim) (hforward' i)⟩
    refine hfirst.bind (fun a after hafter => ?_) hforward
    obtain ⟨hgood, count, hgap, rfl, hcomplete, hothers⟩ := hafter
    have hsteps {good : β → ParserState → Prop} {bad : Diagnostic → Prop} {i : ι} {t : ParserState}
        (hagrees : s.Agrees t (count + gap' + 1))
        (hnext : (next' i a).Until (t.pass count) good bad) :
        (others i >>= next' i).Until t good bad := by
      refine ((hothers i t hagrees).mono (fun _ _ => id) fun _ => False.elim).bind
        (fun c u hu => ?_) (hforward' i)
      obtain ⟨rfl, rfl⟩ := hu
      exact ⟨rfl, hnext⟩
    refine ⟨rfl, ((h' a).run _ ((s.later_pass count).ended hended) hgood).mono
      (fun b final hfinal => ?_) fun d hd => ?_⟩
    · obtain ⟨hgood', count', hgap', rfl, hcomplete', hothers'⟩ := hfinal
      simp only [ParserState.pass, List.drop_drop] at hcomplete'
      refine ⟨hgood', count + count', by omega, pass_pass _ _ _, ?_, fun i t hagrees => ?_⟩
      · rw [Nat.add_assoc]
        exact hcomplete.followedBy hcomplete'
      · rw [← pass_pass]
        exact hsteps (hagrees.mono (by omega)) (hothers' i _ (Agrees.pass (hagrees.mono (by omega))))
    · obtain ⟨count', fault, hgap', hfault, hbegun', hothers'⟩ := hd
      simp only [ParserState.pass, List.drop_drop] at hbegun'
      refine ⟨count + count', fault, by omega, by rw [hfault, nth_pass],
        hcomplete.followedBy_begun hbegun', fun i t hagrees => ?_⟩
      exact hsteps (hagrees.mono (by omega)) (hothers' i _ (Agrees.pass (hagrees.mono (by omega))))

/-- A first step that reads nothing. -/
theorem silent {next : α → Parser β} {next' : ι → α → Parser β}
    (h : Prompt able gap gap' .nothing good first others) (heasy : construct.Easy)
    (h' : ∀ a, Prompt (good a) gap' gap'' construct good' (next a) fun i => next' i a) :
    Prompt able gap gap'' construct good' (first >>= next) fun i => others i >>= next' i := by
  refine (h.bind heasy h').imp ?_
  rintro _ _ ⟨_, rfl, hconstruct⟩
  exact hconstruct

theorem pure (a : α) (h : ∀ s, able s → good a s) :
    Prompt able gap gap .nothing good (Pure.pure a) fun _ : ι => Pure.pure a where
  forward := .pure a
  forward' _ := .pure a
  run s _ hs := by
    refine .inl ⟨h s hs, 0, Nat.le_add_left _ _, rfl, ?_, fun _ t _ => .inl ⟨rfl, rfl⟩⟩
    rw [Nat.zero_add]
    exact Construct.complete_nothing _

/-- A last step that only makes the result. -/
theorem returning (f : α → β) (h : Prompt able gap gap' construct good first others)
    (hgood : ∀ a s, good a s → good' (f a) s) :
    Prompt able gap gap' construct good' (first >>= fun a => Pure.pure (f a))
      fun i => others i >>= fun a => Pure.pure (f a) := by
  refine (h.bind Construct.easy_nothing fun a => .pure (f a) (hgood a)).imp ?_
  rintro _ _ ⟨_, hconstruct, rfl⟩
  exact hconstruct

theorem ite {c : Prop} [Decidable c] {first' : Parser α} {others' : ι → Parser α}
    (h : c → Prompt able gap gap' construct good first others)
    (h' : ¬c → Prompt able gap gap' construct good first' others') :
    Prompt able gap gap' construct good (if c then first else first')
      fun i => if c then others i else others' i := by
  by_cases hc : c
  · simp only [if_pos hc]
    exact h hc
  · simp only [if_neg hc]
    exact h' hc

/-! ## Looking at tokens -/

theorem current {next : Token → Parser β} {next' : ι → Token → Parser β}
    (h : ∀ token, Prompt (fun s => able s ∧ s.window.current = token) gap gap' construct good'
      (next token) fun i => next' i token) :
    Prompt able gap gap' construct good' (current >>= next) fun i => current >>= next' i where
  forward := .bind .current fun token => (h token).forward
  forward' i := .bind .current fun token => (h token).forward' i
  run s hended hs := ((h s.window.current).run s hended ⟨hs, rfl⟩).replace
    fun i t count hcount hagrees hsame => by
      rw [hagrees.current (Nat.zero_lt_of_lt hcount)] at hsame
      exact hsame i

/-- The upcoming token may only be looked at when the current one has been read. -/
theorem upcoming {next : Token → Parser β} {next' : ι → Token → Parser β}
    (h : ∀ token, Prompt (fun s => able s ∧ s.window.upcoming = token) 1 gap' construct good'
      (next token) fun i => next' i token) :
    Prompt able 1 gap' construct good' (upcoming >>= next) fun i => upcoming >>= next' i where
  forward := .bind .upcoming fun token => (h token).forward
  forward' i := .bind .upcoming fun token => (h token).forward' i
  run s hended hs := ((h s.window.upcoming).run s hended ⟨hs, rfl⟩).replace
    fun i t count hcount hagrees hsame => by
      rw [hagrees.upcoming hcount] at hsame
      exact hsame i

/-- The number of tokens that are left only bounds rounds. -/
theorem remaining {next : Nat → Parser β} {next' : ι → Nat → Parser β}
    (h : ∀ rounds, Prompt able gap gap' construct good' (next rounds)
      fun k : ι × Nat => next' k.1 k.2) :
    Prompt able gap gap' construct good' (remaining >>= next) fun i => remaining >>= next' i where
  forward := .bind .remaining fun rounds => (h rounds).forward
  forward' i := .bind .remaining fun rounds => (h 0).forward' (i, rounds)
  run s hended hs := ((h s.window.ahead.length).run s hended hs).replace
    fun i t _ _ _ hsame => hsame (i, t.window.ahead.length)

/-! ## Reading tokens -/

/-- The current token is read as the construct, or at the end of the text the construct is missing. -/
theorem token (a : α) (hend : ∀ s, able s → s.window.current.kind = .eof → construct.Easy)
    (h : ∀ s, able s → s.window.current.kind ≠ .eof →
      ∀ behind, construct (s.window.current :: behind) behind) :
    Prompt able 0 1 construct (fun _ _ => True) (Pure.pure a) fun _ : ι => Pure.pure a where
  forward := .pure a
  forward' _ := .pure a
  run s hended hs := by
    refine .inl ⟨True.intro, 0, Nat.zero_le _, rfl, ?_, fun _ t _ => .inl ⟨rfl, rfl⟩⟩
    rw [Nat.zero_add, List.drop_zero, List.drop_one]
    by_cases heof : s.window.current.kind = .eof
    · rw [hended.ahead_eq_nil heof]
      exact (hend s hs heof).complete_nil
    · rw [hended.ahead_eq heof]
      exact Construct.complete_of_token (h s hs heof) _

/-- The current token is the construct. -/
theorem taken (a : α) {kinds : List TokenKind} (heof : .eof ∉ kinds) :
    Prompt (StandsOn kinds) 0 1 (.token kinds) (fun _ _ => True) (Pure.pure a)
      fun _ : ι => Pure.pure a :=
  .token a (fun _ hs hkind => (heof (hkind ▸ hs)).elim) fun _ hs _ _ => ⟨_, hs, rfl⟩

/-- The current token is taken for read, and the construct begins behind it. -/
theorem take {kinds : List TokenKind} (heof : .eof ∉ kinds)
    (h : Prompt (StandsOn kinds) 1 gap' construct good first others) :
    Prompt (StandsOn kinds) 0 gap' ((Construct.token kinds).followedBy construct) good first
      others where
  forward := h.forward
  forward' := h.forward'
  run s hended hs := by
    have hkind : s.window.current.kind ∈ kinds := hs
    have htoken : (Construct.token kinds).Complete (s.window.ahead.drop 0)
        (s.window.ahead.drop 1) := by
      rw [List.drop_zero, List.drop_one, hended.ahead_eq fun h => heof (h ▸ hkind)]
      exact Construct.complete_of_token (fun _ => ⟨_, hkind, rfl⟩) _
    refine (h.run s hended hs).mono (fun a after hafter => ⟨hafter.1, ?_⟩) fun d hd => ?_
    · obtain ⟨count, hgap, hpass, hcomplete, hothers⟩ := hafter.2
      exact ⟨count, Nat.zero_le _, hpass, htoken.followedBy hcomplete, hothers⟩
    · obtain ⟨count, fault, hgap, hfault, hbegun, hothers⟩ := hd
      exact ⟨count, fault, Nat.zero_le _, hfault, htoken.followedBy_begun hbegun, hothers⟩

theorem advance (h : ∀ s, able s → able' s.advance) :
    Prompt able 1 0 .nothing (fun _ => able') advance fun _ : ι => advance where
  forward := .advance
  forward' _ := .advance
  run s _ hs := .inl ⟨h s hs, 1, Nat.le_refl _, advance_eq_pass s, Construct.complete_nothing _,
    fun _ t _ => .inl ⟨rfl, advance_eq_pass t⟩⟩

/-- The upcoming token is the construct. -/
theorem consume {kinds : List TokenKind} (heof : .eof ∉ kinds)
    (h : ∀ s, able s → s.window.upcoming.kind ∈ kinds) :
    Prompt able 1 1 (.token kinds) (fun _ _ => True) Parser.advance fun _ : ι => Parser.advance where
  forward := .advance
  forward' _ := .advance
  run s hended hs := by
    have hkind := h s hs
    refine .inl ⟨True.intro, 1, Nat.le_add_left _ _, advance_eq_pass s, ?_,
      fun _ t _ => .inl ⟨rfl, advance_eq_pass t⟩⟩
    rw [← List.drop_drop, List.drop_one, List.drop_one,
      hended.tail_eq fun hupcoming => heof (hupcoming ▸ hkind)]
    exact Construct.complete_of_token (fun _ => ⟨_, hkind, rfl⟩) _

/-- The fault is noticed at the first token that is not read. -/
theorem fail {fault : Fault} {token : Token} (heasy : construct.Easy)
    (h : ∀ s, able s → s.window.nth gap = token) :
    Prompt able gap gap' construct good (fail fault token) fun _ : ι => fail fault token where
  forward := .fail _ _
  forward' _ := .fail _ _
  run s _ hs := by
    refine ⟨.on fault token, List.prefix_refl _, gap, fault, Nat.le_refl _, by rw [h s hs],
      heasy.begun _, fun _ t _ => ?_⟩
    exact ⟨.on fault token, List.prefix_refl _, rfl⟩

/-- The upcoming token becomes the current one. -/
theorem onto (kinds : List TokenKind) (h : ∀ s, able s → s.window.upcoming.kind ∈ kinds) :
    Prompt able 1 0 .nothing (fun _ => StandsOn kinds) Parser.advance fun _ : ι => Parser.advance :=
  .advance h

theorem step : Prompt able 1 0 .nothing (fun _ _ => True) Parser.advance fun _ : ι => Parser.advance :=
  .advance fun _ _ => True.intro

theorem expect (wanted : TokenKind) :
    Prompt able 1 0 .nothing (fun _ => StandsOn [wanted]) (expect wanted)
      fun _ : ι => expect wanted := by
  refine .upcoming fun token => .ite (fun hkind => ?_) fun _ => ?_
  · exact .advance fun s hs => List.mem_singleton.2 (hkind ▸ hs.2 ▸ rfl)
  · exact .fail Construct.easy_nothing fun s hs => by rw [← hs.2, TokenStream.upcoming_eq_nth]

/-- A construct that is dropped has left a diagnostic behind. -/
theorem attempt (h : Prompt able gap gap' construct good first others) :
    Prompt able gap gap' construct (fun o s => ∃ a, o = some a ∧ good a s) (attempt first)
      fun i => attempt (others i) where
  forward := .attempt h.forward
  forward' i := .attempt (h.forward' i)
  run s hended hs := by
    refine (h.run s hended hs).attempt.mono (fun o after hafter => ?_) fun d hd => ?_
    · obtain ⟨a, rfl, hgood, count, hgap, hpass, hcomplete, hothers⟩ := hafter
      refine ⟨⟨a, rfl, hgood⟩, count, hgap, hpass, hcomplete, fun i t hagrees => ?_⟩
      refine (hothers i t hagrees).attempt.mono (fun o' t' ht => ?_) fun _ => id
      obtain ⟨b, rfl, rfl, rfl⟩ := ht
      exact ⟨rfl, rfl⟩
    · obtain ⟨count, fault, hgap, hfault, hbegun, hothers⟩ := hd
      refine ⟨count, fault, hgap, hfault, hbegun, fun i t hagrees => ?_⟩
      refine (hothers i t hagrees).attempt.mono (fun o' t' ht => ?_) fun _ => id
      obtain ⟨_, -, hfalse⟩ := ht
      exact hfalse

end Prompt

end Parser

end MonkeyLang
