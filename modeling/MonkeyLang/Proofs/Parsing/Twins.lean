import MonkeyLang.Proofs.Parsing.Seam

/-!
# Parsing inside a text

The parsers do the same in a text and in a longer one that it is part of, as long as they stay inside
(`Parser.twins_upTo`).  Entered inside the text, the parser of a construct ends with its current token
inside the text, and if it has read the construct then with its upcoming token, too.

The number of open blocks is what makes this hold.  A block that is open has its closing brace in
front of the seam, and where a malformed statement makes several blocks end at one brace there are
only more braces left than open blocks.
-/

set_option autoImplicit false

namespace MonkeyLang

namespace Seam

/-- Both parsers notice the same fault inside the text. -/
def Faults (seam : Seam) (blocks : Nat) (d e : Diagnostic) (s t : ParserState) : Prop :=
  e = d.mapPlace seam.place ∧ seam.At blocks s t

/-- Both parsers read the same construct and stay inside the text, or both notice the same fault
there. -/
abbrev Twins {α : Type} (seam : Seam) (blocks : Nat) (image : α → α) (first second : Parser α)
    (s t : ParserState) : Prop :=
  Parser.Tandem first second s t (fun a b s' t' => b = image a ∧ seam.Past blocks s' t')
    (seam.Faults blocks)

/-- The parsers for the parts of a construct do the same inside the text. -/
structure PartsTwins (seam : Seam) (parts parts' : Parts) : Prop where
  expression : ∀ {blocks : Nat} {s t : ParserState} (threshold : Precedence),
    seam.At blocks s t →
    seam.Twins blocks seam.tree (parts.expression threshold) (parts'.expression threshold) s t
  block : ∀ {blocks : Nat} {s t : ParserState}, seam.At blocks s t →
    s.window.current.kind = .lbrace →
    seam.Twins blocks (fun found => (seam.token found.1, Node.mapTokensAll seam.token found.2))
      parts.block parts'.block s t

end Seam

namespace Parser

open Seam

variable {α : Type} {seam : Seam} {blocks : Nat} {s t : ParserState}

section Rules

variable {γ δ : Type} {good : γ → δ → ParserState → ParserState → Prop}
  {bad : Diagnostic → Diagnostic → ParserState → ParserState → Prop}

theorem twins_bind {image : α → α} {first second : Parser α} {next : α → Parser γ}
    {next' : α → Parser δ} (h : seam.Twins blocks image first second s t)
    (h' : ∀ a s' t', seam.Past blocks s' t' →
      Tandem (next a) (next' (image a)) s' t' good (seam.Faults blocks)) :
    Tandem (first >>= next) (second >>= next') s t good (seam.Faults blocks) := by
  refine Tandem.bind h fun a b s' t' hpast => ?_
  obtain ⟨rfl, hpast⟩ := hpast
  exact h' a s' t' hpast

theorem twins_advance {next : Unit → Parser γ} {next' : Unit → Parser δ}
    (h : Tandem (next ()) (next' ()) s.advance t.advance good bad) :
    Tandem (advance >>= next) (advance >>= next') s t good bad := h

theorem twins_skipTo {kinds : List TokenKind} {next : Unit → Parser γ} {next' : Unit → Parser δ}
    (h : Tandem (next ()) (next' ()) (s.skip kinds) (t.skip kinds) good bad) :
    Tandem (skipTo kinds >>= next) (skipTo kinds >>= next') s t good bad := h

/-- The number of tokens that are left only bounds rounds. -/
theorem twins_remaining {next : Nat → Parser γ} {next' : Nat → Parser δ}
    (h : ∀ rounds rounds', Tandem (next rounds) (next' rounds') s t good bad) :
    Tandem (remaining >>= next) (remaining >>= next') s t good bad :=
  h s.window.ahead.length t.window.ahead.length

variable (lawful : seam.Lawful)
include lawful

theorem twins_current {next : Token → Parser γ} {next' : Token → Parser δ}
    (h : seam.At blocks s t)
    (h' : Tandem (next s.window.current) (next' (seam.token s.window.current)) s t good bad) :
    Tandem (current >>= next) (current >>= next') s t good bad := by
  rw [← h.current lawful] at h'
  exact h'

theorem twins_upcoming {next : Token → Parser γ} {next' : Token → Parser δ}
    (h : seam.Past blocks s t)
    (h' : Tandem (next s.window.upcoming) (next' (seam.token s.window.upcoming)) s t good bad) :
    Tandem (upcoming >>= next) (upcoming >>= next') s t good bad := by
  rw [← h.upcoming lawful] at h'
  exact h'

theorem tandem_expect (wanted : TokenKind) (h : seam.Past blocks s t) :
    Tandem (expect wanted) (expect wanted) s t
      (fun _ _ s' t' => s' = s.advance ∧ t' = t.advance ∧
        s.advance.window.current.kind = wanted)
      (seam.Faults blocks) := by
  show Tandem (ite (s.window.upcoming.kind = wanted) _ _) (ite (t.window.upcoming.kind = wanted) _ _)
    s t _ _
  rw [h.upcoming lawful]
  exact .ite Iff.rfl (fun hkind => ⟨rfl, rfl, hkind⟩) fun _ => ⟨rfl, h.toAt⟩

theorem twins_expect {wanted : TokenKind} {next : Unit → Parser γ} {next' : Unit → Parser δ}
    (h : seam.Past blocks s t)
    (h' : s.advance.window.current.kind = wanted → seam.At blocks s.advance t.advance →
      Tandem (next ()) (next' ()) s.advance t.advance good (seam.Faults blocks)) :
    Tandem (expect wanted >>= next) (expect wanted >>= next') s t good (seam.Faults blocks) := by
  refine Tandem.bind (tandem_expect lawful wanted h) fun _ _ s' t' hadvance => ?_
  obtain ⟨rfl, rfl, hkind⟩ := hadvance
  exact h' hkind (h.advance lawful)

end Rules

/-- The two words that begin statements, as questions. -/
theorem statement_eq (parts : Parts) :
    statement parts = (do
      let token ← current
      if token.kind = .letWord then binding parts
      else if token.kind = .returnWord then result parts
      else expressionStatement parts) := by
  refine congrArg (current >>= ·) (funext fun token => ?_)
  cases token.kind <;> rfl

/-! ## Lists in parentheses -/

section Constructs

variable (lawful : seam.Lawful)
include lawful

theorem name_twins (h : seam.Past blocks s t) :
    seam.Twins blocks (Identifier.mapToken seam.token) name name s t :=
  twins_current lawful h.toAt ⟨rfl, h⟩

theorem parameter_twins (h : seam.Past blocks s t) :
    seam.Twins blocks (Identifier.mapToken seam.token) parameter parameter s t :=
  twins_expect lawful h fun hkind h' => name_twins lawful (h'.past lawful (by simp [hkind]))

variable {item item' : Parser α} {image : α → α}

theorem items_twins (hitem : ∀ {s t : ParserState}, seam.Past blocks s t →
      seam.Twins blocks image item item' s t) :
    ∀ (rounds rounds' : Nat) {s t : ParserState}, seam.Past blocks s t →
    seam.Twins blocks (List.map image) (items item rounds) (items item' rounds') s t
  | 0, _, _, _, _ => .giveUp_left _
  | _ + 1, 0, _, _, _ => .giveUp_right _
  | rounds + 1, rounds' + 1, s, t, h => by
    refine twins_bind (hitem h) fun first s' t' h' => twins_upcoming lawful h' ?_
    refine .ite Iff.rfl (fun hcomma => ?_) fun _ => ⟨rfl, h'⟩
    have hpast := h'.onto lawful (by simp [hcomma])
    exact twins_advance <|
      twins_bind (items_twins hitem rounds rounds' hpast) fun rest u v huv => .pure ⟨rfl, huv⟩

theorem parenthesized_twins (hitem : ∀ {s t : ParserState}, seam.Past blocks s t →
      seam.Twins blocks image item item' s t) (h : seam.Past blocks s t) :
    seam.Twins blocks (List.map image) (parenthesized item) (parenthesized item') s t := by
  refine twins_upcoming lawful h (.ite Iff.rfl (fun hparen => ?_) fun _ => ?_)
  · exact twins_advance <| .pure ⟨rfl, h.onto lawful (by simp [hparen])⟩
  · refine twins_remaining fun rounds rounds' => ?_
    refine twins_bind (items_twins lawful hitem _ _ h) fun list s' t' h' => ?_
    refine twins_expect lawful h' fun hkind h'' => ?_
    exact ⟨rfl, h''.past lawful (by simp [hkind])⟩

/-! ## Openings -/

theorem reference_twins (h : seam.Past blocks s t) :
    seam.Twins blocks seam.tree reference reference s t :=
  twins_bind (name_twins lawful h) fun _ _ _ h' => ⟨rfl, h'⟩

theorem boolean_twins (h : seam.Past blocks s t) :
    seam.Twins blocks seam.tree boolean boolean s t :=
  twins_current lawful h.toAt ⟨rfl, h⟩

theorem integer_twins (h : seam.Past blocks s t) :
    seam.Twins blocks seam.tree integer integer s t := by
  refine twins_current lawful h.toAt ?_
  rw [show (seam.token s.window.current).literal = s.window.current.literal from rfl]
  cases Text.numeralValue? s.window.current.literal.toList with
  | none => exact .giveUp_left _
  | some value =>
    exact .ite Iff.rfl (fun _ => .giveUp_left _) fun _ =>
      .ite Iff.rfl (fun _ => ⟨rfl, h.toAt⟩) fun _ => ⟨rfl, h⟩

theorem closeStatement_tandem (h' : seam.Past blocks s t) :
    Tandem closeStatement closeStatement s t (fun _ _ s' t' => seam.Done blocks s' t')
      (seam.Faults blocks) := by
  refine twins_upcoming lawful h' (.ite Iff.rfl (fun hmark => ?_) fun _ => ?_)
  · exact ⟨h'.advance lawful, .inl hmark⟩
  · exact ⟨h'.toAt, .inr h'.tail⟩

variable {parts parts' : Parts} (h : seam.PartsTwins parts parts')
include h

theorem argument_twins (h' : seam.Past blocks s t) :
    seam.Twins blocks seam.tree (argument parts) (argument parts') s t :=
  twins_advance (h.expression .lowest (h'.advance lawful))

theorem unary_twins (h' : seam.Past blocks s t) :
    seam.Twins blocks seam.tree (unary parts) (unary parts') s t := by
  refine twins_current lawful h'.toAt (twins_advance ?_)
  exact twins_bind (h.expression .sign (h'.advance lawful)) fun operand s' t' hst =>
    .pure ⟨rfl, hst⟩

theorem group_twins (h' : seam.Past blocks s t) :
    seam.Twins blocks seam.tree (group parts) (group parts') s t := by
  refine twins_advance (twins_bind (h.expression .lowest (h'.advance lawful))
    fun inner s' t' hst => twins_expect lawful hst fun hkind hst' => ?_)
  exact .pure ⟨rfl, hst'.past lawful (by simp [hkind])⟩

theorem conditional_twins (h' : seam.Past blocks s t) :
    seam.Twins blocks seam.tree (conditional parts) (conditional parts') s t := by
  refine twins_current lawful h'.toAt (twins_expect lawful h' fun hopens hst => ?_)
  have hopened := hst.past lawful (by simp [hopens])
  refine twins_advance (twins_bind (h.expression .lowest (hopened.advance lawful))
    fun condition s' t' hcondition => twins_expect lawful hcondition fun hcloses hst => ?_)
  have hclosed := hst.past lawful (by simp [hcloses])
  refine twins_expect lawful hclosed fun hbrace hst => twins_bind (h.block hst hbrace) ?_
  rintro ⟨brace, body⟩ u v hbody
  refine twins_upcoming lawful hbody (.ite Iff.rfl (fun helse => ?_) fun _ => .pure ⟨rfl, hbody⟩)
  refine twins_advance (twins_expect lawful (hbody.onto lawful (by simp [helse]))
    fun hbrace hst => twins_bind (h.block hst hbrace) ?_)
  rintro ⟨elseBrace, elseBody⟩ u v helseBody
  exact .pure ⟨rfl, helseBody⟩

theorem function_twins (h' : seam.Past blocks s t) :
    seam.Twins blocks seam.tree (function parts) (function parts') s t := by
  refine twins_current lawful h'.toAt (twins_expect lawful h' fun hopens hst => ?_)
  have hopened := hst.past lawful (by simp [hopens])
  refine twins_bind (parenthesized_twins lawful (parameter_twins lawful) hopened)
    fun names s' t' hnames => twins_expect lawful hnames fun hbrace hst =>
    twins_bind (h.block hst hbrace) ?_
  rintro ⟨brace, body⟩ u v hbody
  exact .pure ⟨rfl, hbody⟩

theorem opening_twins (h' : seam.Past blocks s t) : ∀ kind : Opening,
    seam.Twins blocks seam.tree (opening parts kind) (opening parts' kind) s t
  | .reference => reference_twins lawful h'
  | .integer => integer_twins lawful h'
  | .boolean => boolean_twins lawful h'
  | .unary => unary_twins lawful h h'
  | .group => group_twins lawful h h'
  | .conditional => conditional_twins lawful h h'
  | .function => function_twins lawful h h'

/-! ## Expressions -/

theorem continuation_twins (h' : seam.Past blocks s t) : ∀ (kind : Continuation) (left : Node),
    seam.Twins blocks seam.tree (continuation parts kind left)
      (continuation parts' kind (seam.tree left)) s t
  | .binary, left => by
    refine twins_current lawful h'.toAt (twins_advance ?_)
    exact twins_bind (h.expression _ (h'.advance lawful)) fun right s' t' hst => .pure ⟨rfl, hst⟩
  | .call, left => by
    refine twins_current lawful h'.toAt ?_
    refine twins_bind (parenthesized_twins lawful (argument_twins lawful h) h')
      fun arguments s' t' hst => .pure ⟨?_, hst⟩
    simp only [Seam.tree, Node.mapTokens, Node.mapTokensAll_eq_map]

theorem climb_twins (threshold : Precedence) :
    ∀ (rounds rounds' : Nat) (left : Node) {s t : ParserState}, seam.Past blocks s t →
    seam.Twins blocks seam.tree (climb .standard parts threshold rounds left)
      (climb .standard parts' threshold rounds' (seam.tree left)) s t
  | 0, _, _, _, _, _ => .giveUp_left _
  | _ + 1, 0, _, _, _, _ => .giveUp_right _
  | rounds + 1, rounds' + 1, left, s, t, h' => by
    refine twins_upcoming lawful h' (.ite Iff.rfl (fun _ => ?_) fun _ => .pure ⟨rfl, h'⟩)
    rw [show (seam.token s.window.upcoming).kind = s.window.upcoming.kind from rfl]
    cases hkind : Grammar.standard.continuation? s.window.upcoming.kind with
    | none => exact .pure ⟨rfl, h'⟩
    | some kind =>
      have hinner : s.window.upcoming.kind.isInner = true := by
        revert hkind
        cases s.window.upcoming.kind <;> first | (intro _; rfl) | (rintro ⟨⟩)
      refine twins_advance (twins_bind (continuation_twins lawful h (h'.onto lawful hinner) kind left)
        fun left' u v huv => climb_twins threshold rounds rounds' left' huv)

theorem expressionWith_twins (threshold : Precedence) (h' : seam.At blocks s t) :
    seam.Twins blocks seam.tree (expressionWith .standard parts threshold)
      (expressionWith .standard parts' threshold) s t := by
  refine twins_current lawful h' ?_
  rw [show (seam.token s.window.current).kind = s.window.current.kind from rfl]
  cases hkind : Grammar.standard.opening? s.window.current.kind with
  | none => exact .fail ⟨rfl, h'⟩
  | some kind =>
    have hinner : s.window.current.kind.isInner = true := by
      revert hkind
      cases s.window.current.kind <;> first | (intro _; rfl) | (rintro ⟨⟩)
    exact twins_bind (opening_twins lawful h (h'.past lawful hinner) kind) fun left u v huv =>
      twins_remaining fun rounds rounds' => climb_twins lawful h threshold _ _ left huv

/-! ## Statements -/

/-- The expression of a statement, with the semicolon behind it. -/
theorem closed_tandem {make make' : Node → Node}
    (hmake : ∀ inner, make' (seam.tree inner) = seam.tree (make inner))
    (h' : seam.At blocks s t) :
    Tandem
      (do
        let inner ← parts.expression .lowest
        closeStatement
        return make inner)
      (do
        let inner ← parts'.expression .lowest
        closeStatement
        return make' inner) s t
      (fun a b s' t' => b = seam.tree a ∧ seam.Done blocks s' t') (seam.Faults blocks) :=
  twins_bind (h.expression .lowest h') fun inner _ _ hst =>
    .bind (closeStatement_tandem lawful hst) fun _ _ _ _ hdone => .pure ⟨hmake inner, hdone⟩

theorem statement_tandem (h' : seam.At blocks s t) :
    Tandem (statement parts) (statement parts') s t
      (fun a b s' t' => b = seam.tree a ∧ seam.Done blocks s' t') (seam.Faults blocks) := by
  rw [statement_eq, statement_eq]
  refine twins_current lawful h' (.ite Iff.rfl (fun hword => ?_) fun _ =>
    .ite Iff.rfl (fun hword => ?_) fun _ => ?_)
  · have hpast := h'.past lawful (by simp [hword])
    refine twins_current lawful h' (twins_expect lawful hpast fun hname hst => ?_)
    have hnamed := hst.past lawful (by simp [hname])
    refine twins_bind (name_twins lawful hnamed) fun identifier u v huv =>
      twins_expect lawful huv fun hsign hst => twins_advance ?_
    have hsigned := hst.past lawful (by simp [hsign])
    exact closed_tandem lawful h (fun _ => rfl) (hsigned.advance lawful)
  · have hpast := h'.past lawful (by simp [hword])
    refine twins_current lawful h' (twins_advance ?_)
    exact closed_tandem lawful h (fun _ => rfl) (hpast.advance lawful)
  · exact twins_current lawful h' (closed_tandem lawful h (fun _ => rfl) h')

/-- A statement that may be malformed: then both are dropped, and one goes on inside the text. -/
theorem attempt_statement_tandem (h' : seam.At blocks s t) :
    Tandem (attempt (statement parts)) (attempt (statement parts')) s t
      (fun a b s' t' => b = a.map seam.tree ∧
        (a.isSome = true → seam.Done blocks s' t') ∧ (a = none → seam.At blocks s' t'))
      fun _ _ _ _ => False := by
  refine .attempt ((statement_tandem lawful h h').mono (fun a b u v huv => ?_) fun d e u v huv => ?_)
  · exact ⟨congrArg some huv.1, fun _ => huv.2, by rintro ⟨⟩⟩
  · obtain ⟨rfl, huv⟩ := huv
    exact ⟨rfl, by rintro ⟨⟩, fun _ => huv.record d⟩

/-- Lists of statements, whatever is wrong with single statements. -/
theorem statementsWith_tandem {closing : List TokenKind} (staying : seam.Staying closing blocks) :
    ∀ (rounds rounds' : Nat) {s t : ParserState}, seam.At blocks s t →
    Tandem (statementsWith parts closing rounds) (statementsWith parts' closing rounds') s t
      (fun a b s' t' => b = Node.mapTokensAll seam.token a ∧ seam.At blocks s' t' ∧
        (s'.window.current.kind = .eof ∨ s'.window.current.kind ∈ closing))
      fun _ _ _ _ => False
  | 0, _, _, _, _ => .giveUp_left _
  | _ + 1, 0, _, _, _ => .giveUp_right _
  | rounds + 1, rounds' + 1, s, t, h' => by
    refine twins_current lawful h' (.ite Iff.rfl (fun hstop => ?_) fun _ => ?_)
    · simp only [Bool.or_eq_true, decide_eq_true_eq] at hstop
      exact .pure ⟨rfl, h', hstop⟩
    · refine .bind (attempt_statement_tandem lawful h h') fun first first' u v hfirst => ?_
      obtain ⟨rfl, hdone, hmalformed⟩ := hfirst
      cases first with
      | some first =>
        refine twins_advance (.bind (statementsWith_tandem staying rounds rounds'
          ((hdone rfl).advance lawful staying)) fun rest rest' u v hrest => ?_)
        obtain ⟨rfl, hrest⟩ := hrest
        exact .pure ⟨rfl, hrest⟩
      | none =>
        have hskip := (hmalformed rfl).skip staying
        refine twins_skipTo (twins_current lawful hskip
          (.ite Iff.rfl (fun hclosing => .pure ⟨rfl, hskip, .inr hclosing⟩) fun hopen => ?_))
        exact twins_advance
          (statementsWith_tandem staying rounds rounds' ((hmalformed rfl).resume lawful staying hopen))

theorem blockWith_twins (h' : seam.At blocks s t) (hbrace : s.window.current.kind = .lbrace) :
    seam.Twins blocks (fun found => (seam.token found.1, Node.mapTokensAll seam.token found.2))
      (blockWith parts) (blockWith parts') s t := by
  refine twins_current lawful h' (twins_advance (twins_remaining fun rounds rounds' => ?_))
  have hinside := h'.enter lawful hbrace
  refine Tandem.bind ((statementsWith_tandem lawful h (lawful.staying blocks) _ _ hinside).mono
    (fun _ _ _ _ => id) fun _ _ _ _ => False.elim) fun body body' u v hbody => ?_
  obtain ⟨rfl, hat, hstop⟩ := hbody
  refine .pure ⟨rfl, hat.leave lawful ?_⟩
  exact hstop.symm.imp List.mem_singleton.1 id

end Constructs

/-- **Parsers of whatever depth do the same inside a text.** -/
theorem twins_upTo (lawful : seam.Lawful) : ∀ depth depth' : Nat,
    seam.PartsTwins (.upTo .standard depth) (.upTo .standard depth')
  | 0, _ => ⟨fun _ _ => .giveUp_left _, fun _ _ => .giveUp_left _⟩
  | _ + 1, 0 => ⟨fun _ _ => .giveUp_right _, fun _ _ => .giveUp_right _⟩
  | depth + 1, depth' + 1 =>
    ⟨fun threshold h => expressionWith_twins lawful (twins_upTo lawful depth depth') threshold h,
      fun h hbrace => blockWith_twins lawful (twins_upTo lawful depth depth') h hbrace⟩

end Parser

end MonkeyLang
