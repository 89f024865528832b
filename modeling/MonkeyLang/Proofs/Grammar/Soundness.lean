import MonkeyLang.Proofs.Grammar.Greedy
import MonkeyLang.Proofs.Parsing.Forward

/-!
# What is read without a diagnostic is derived from the grammar

Every construct that a parser reads without recording a diagnostic is a derivation of the grammar,
with the very tree that the parser returns, from the token that it was entered on up to the one that
it was left on.  So no token is skipped and none is read twice.

Blocks go on after a malformed statement, so a construct may be read although something in it was
dropped.  `ParserState.Reads` says of two states that something holds unless a diagnostic was recorded
in between; the statement about each parser is of this form.

The loop over the operators is where precedences turn into strata.  Its invariant
(`Parser.LeftOf`) is that what has been read so far is an expression of some stratum that is at least
as tight as the upcoming token: then the upcoming operator can take it for its left operand.
-/

set_option autoImplicit false

namespace MonkeyLang

namespace ParserState

/-- Something holds unless a diagnostic was recorded between the two states. -/
def Reads (before after : ParserState) (claim : Prop) : Prop :=
  before.Later after ∧ (before.diagnostics.length < after.diagnostics.length ∨ claim)

variable {first second third : ParserState} {p q r : Prop}

theorem Later.reads (h : first.Later second) (hp : p) : first.Reads second p :=
  ⟨h, .inr hp⟩

theorem Reads.imp (h : first.Reads second p) (f : p → q) : first.Reads second q :=
  ⟨h.1, h.2.imp_right f⟩

theorem Reads.trans (h : first.Reads second p) (h' : second.Reads third q) (f : p → q → r) :
    first.Reads third r := by
  have hfirst := h.1.diagnostics.length_le
  have hsecond := h'.1.diagnostics.length_le
  refine ⟨h.1.trans h'.1, ?_⟩
  rcases h.2 with hlt | hp
  · exact .inl (by omega)
  · rcases h'.2 with hlt | hq
    · exact .inl (by omega)
    · exact .inr (f hp hq)

/-- Consuming tokens records nothing. -/
theorem Reads.of_advance (h : first.advance.Reads second p) : first.Reads second p :=
  ⟨first.later_advance.trans h.1, h.2⟩

theorem Reads.advance (h : first.Reads second p) : first.Reads second.advance p :=
  ⟨h.1.trans second.later_advance, h.2⟩

/-- A diagnostic between the states makes the claim empty. -/
theorem Reads.of_record (h : first.Later second) (diagnostic : Diagnostic)
    (h' : (second.record diagnostic).Later third) : first.Reads third p := by
  refine ⟨(h.trans (second.later_record diagnostic)).trans h', .inl ?_⟩
  have hfirst := h.diagnostics.length_le
  have hthird := h'.diagnostics.length_le
  rw [diagnostics_record, List.length_append, List.length_singleton] at hthird
  omega

end ParserState

/-! ## Precedences and strata -/

/-- The stratum of the expressions that are read with a threshold. -/
def Precedence.stratum : Precedence → Stratum
  | lowest => .disjunction
  | logicalOr => .conjunction
  | logicalAnd => .equality
  | equality => .order
  | order => .sum
  | sum => .product
  | product | sign | call => .signed

theorem Precedence.level_stratum_le (precedence : Precedence) :
    precedence.stratum.level ≤ 8 ∧ precedence.stratum.level ≤ precedence.level + 1 := by
  cases precedence <;> decide

theorem TokenKind.level_precedence_le (kind : TokenKind) : kind.precedence.level ≤ 9 := by
  cases kind <;> decide

/-- The right operand of an operator is read with the operator's own precedence. -/
theorem Stratum.stratum_of_mem {stratum : Stratum} {kind : TokenKind}
    (h : kind ∈ stratum.operators) : kind.precedence.stratum = stratum.tighter := by
  revert h
  cases stratum <;> cases kind <;> decide

namespace Grammar

/-- The tokens that open the constructs of the language. -/
theorem standard_opening? {kind : TokenKind} {opening : Opening}
    (h : standard.opening? kind = some opening) :
    match opening with
    | .reference => kind = .ident
    | .integer => kind = .int
    | .boolean => kind = .trueWord ∨ kind = .falseWord
    | .unary => kind = .bang ∨ kind = .minus
    | .group => kind = .lparen
    | .conditional => kind = .ifWord
    | .function => kind = .function := by
  cases kind <;> cases h <;> simp

/-- The tokens that continue an expression of the language. -/
theorem standard_continuation? {kind : TokenKind} {continuation : Continuation}
    (h : standard.continuation? kind = some continuation) :
    match continuation with
    | .binary => ∃ stratum : Stratum, kind ∈ stratum.operators
    | .call => kind = .lparen := by
  cases kind with
  | lparen => cases h; rfl
  | lor => cases h; exact ⟨.disjunction, by decide⟩
  | land => cases h; exact ⟨.conjunction, by decide⟩
  | eq | neq => cases h; exact ⟨.equality, by decide⟩
  | lt | lte | gt | gte => cases h; exact ⟨.order, by decide⟩
  | plus | minus => cases h; exact ⟨.sum, by decide⟩
  | asterisk | slash => cases h; exact ⟨.product, by decide⟩
  | _ => cases h

/-- An upcoming token that binds an expression at all continues it. -/
theorem standard_continuation?_ne_none {threshold : Precedence} {kind : TokenKind}
    (h : threshold < kind.precedence) : standard.continuation? kind ≠ none := by
  intro hnone
  have hsome := standard_continuation?_isSome_iff kind
  rw [hnone] at hsome
  refine absurd (hsome.2 ?_) (by decide)
  exact Nat.lt_of_le_of_lt (by cases threshold <;> decide) h

end Grammar

/-- The upcoming token is what the rest of the tokens start with. -/
theorem TokenStream.upcoming_eq {window : TokenStream} {token : Token}
    (h : token ∈ window.ahead.tail.head?) : window.upcoming = token := by
  rw [upcoming, List.headD_eq_head?_getD, h, Option.getD_some]

namespace Parser

open ParserState

variable {α : Type} {parts : Parts}

/-- The parsers for the parts of a construct read derivations. -/
structure Sound (parts : Parts) : Prop where
  forward : parts.Forward .any fun _ => True
  expression : ∀ (threshold : Precedence) (state : ParserState), state.window.Ended →
    Gives (parts.expression threshold) state fun tree after => state.Reads after
      (Derives Settled (.expression threshold.stratum tree) state.window.ahead
          after.window.ahead.tail ∧
        after.window.upcoming.kind.precedence.level ≤ threshold.level)
  block : ∀ state : ParserState, state.window.Ended → state.window.current.kind = .lbrace →
    parts.block.Gives state fun found after => state.Reads after
      (Derives Settled (.block found.1 found.2) state.window.ahead after.window.ahead.tail)

/-- What holds unless a diagnostic was recorded may be assumed of the parser that goes on. -/
theorem gives_of_reads {parser : Parser α} {first second : ParserState} {p : Prop}
    {claim : α → ParserState → Prop} (h : first.Reads second p)
    (hforward : parser.Forward .any fun _ => True)
    (hparser : p → parser.Gives second fun a after => second.Reads after (claim a after)) :
    parser.Gives second fun a after => first.Reads after (claim a after) := by
  rcases h.2 with hlt | hp
  · exact (hforward.gives second).mono fun _ after hafter =>
      ⟨h.1.trans hafter, .inl (Nat.lt_of_lt_of_le hlt hafter.diagnostics.length_le)⟩
  · exact (hparser hp).mono fun _ _ hafter => h.trans hafter fun _ => id

/-! ## Lists in parentheses -/

/-- A parser that is entered on the token before its item reads what a relation says. -/
def ReadsItem (item : Parser α) (reads : List Token → α → List Token → Prop) : Prop :=
  ∀ state : ParserState, state.window.Ended → item.Gives state fun a after =>
    state.Reads after (reads state.window.ahead.tail a after.window.ahead.tail)

section Lists

variable {item : Parser α} {one : List Token → α → List Token → Prop}
  (many full : List Token → List α → List Token → Prop)
  (last : ∀ ⦃input a rest⦄, one input a rest → many input [a] rest)
  (more : ∀ ⦃input a comma middle list rest⦄, one input a (comma :: middle) →
    comma.kind = .comma → many middle list rest → many input (a :: list) rest)
include last more

theorem items_sound (h : ReadsItem item one) : ∀ rounds, ReadsItem (items item rounds) many
  | 0, _, _ => True.intro
  | rounds + 1, state, hs => by
    rw [items]
    refine Gives.bind (h state hs) fun a t ht => ?_
    rw [Gives, meets_bind, meets_upcoming, meets_ite]
    refine ⟨fun hcomma => ?_, fun _ => ht.imp fun hone => last hone⟩
    have hended := ht.1.ended hs
    have htail := hended.tail_eq (by simp [hcomma])
    rw [meets_bind, meets_advance]
    refine Gives.bind (items_sound h rounds t.advance (t.later_advance.ended hended))
      fun list u hu => ?_
    refine ht.trans hu.of_advance fun hone hmany => ?_
    rw [htail] at hone
    exact more hone hcomma hmany

theorem parenthesized_sound
    (none : ∀ ⦃closes : Token⦄ ⦃rest⦄, closes.kind = .rparen → full (closes :: rest) [] rest)
    (some : ∀ ⦃input list⦄ ⦃closes : Token⦄ ⦃rest⦄, many input list (closes :: rest) →
      closes.kind = .rparen → full input list rest)
    (h : ReadsItem item one) : ReadsItem (parenthesized item) full := by
  intro state hs
  rw [parenthesized, Gives, meets_bind, meets_upcoming, meets_ite]
  refine ⟨fun hparen => ?_, fun _ => ?_⟩
  · rw [meets_bind, meets_advance, meets_pure, hs.tail_eq (by simp [hparen])]
    exact state.later_advance.reads (none hparen)
  · rw [meets_bind, meets_remaining]
    refine Gives.bind (items_sound many last more h _ state hs) fun list t ht => Gives.expect fun hparen => ?_
    refine ht.advance.imp fun hmany => ?_
    rw [(ht.1.ended hs).tail_eq (by simp [hparen])] at hmany
    exact some hmany hparen

end Lists

theorem parameter_sound : ReadsItem parameter fun input identifier rest =>
    ∃ name : Token, name.kind = .ident ∧ identifier = ⟨name, name.literal⟩ ∧
      input = name :: rest := by
  intro state hs
  refine Gives.expect fun hname => ?_
  exact state.later_advance.reads ⟨_, hname, rfl, hs.tail_eq (by simp [hname])⟩

theorem parameters_sound : ReadsItem (parenthesized parameter) Parameters := by
  refine parenthesized_sound NameList Parameters ?_ ?_ (fun _ _ => .none) (fun _ _ _ _ => .some)
    parameter_sound
  · rintro _ _ _ ⟨name, hname, rfl, rfl⟩
    exact .last hname
  · rintro _ _ _ _ _ _ ⟨name, hname, rfl, rfl⟩ hcomma h
    exact .more hname hcomma h

theorem argument_sound (h : Sound parts) : ReadsItem (argument parts) fun input tree rest =>
    Derives Settled (.expression .disjunction tree) input rest := by
  intro state hs
  rw [argument, Gives, meets_bind, meets_advance]
  exact (h.expression .lowest _ (state.later_advance.ended hs)).mono
    fun tree t ht => ht.of_advance.imp And.left

theorem arguments_sound (h : Sound parts) : ReadsItem (parenthesized (argument parts))
    fun input trees rest => Derives Settled (.arguments trees) input rest :=
  parenthesized_sound (fun input trees rest => Derives Settled (.list trees) input rest) _
    (fun _ _ _ => .last) (fun _ _ _ _ _ _ => .more) (fun _ _ => .noArguments)
    (fun _ _ _ _ => .someArguments) (argument_sound h)

/-! ## Openings -/

/-- What has been read so far can be the left operand of the upcoming token, and it is no looser
than expressions of the stratum are. -/
def LeftOf (stratum : Stratum) (input : List Token) (tree : Node) (after : ParserState) : Prop :=
  ∃ stratum', stratum.level ≤ stratum'.level ∧
    Derives Settled (.expression stratum' tree) input after.window.ahead.tail ∧
    after.window.upcoming.kind.precedence.level ≤ stratum'.level

/-- From the state the parser reads an expression that can be a left operand. -/
def Opens (stratum : Stratum) (parser : Parser Node) (state : ParserState) : Prop :=
  parser.Gives state fun tree after =>
    state.Reads after (LeftOf stratum state.window.ahead tree after)

theorem LeftOf.of_primary {stratum : Stratum} {input : List Token} {tree : Node}
    {after : ParserState} (hle : stratum.level ≤ 8)
    (h : Derives Settled (.expression .primary tree) input after.window.ahead.tail) :
    LeftOf stratum input tree after :=
  ⟨.primary, Nat.le_trans hle (by decide), h,
    Nat.le_trans (TokenKind.level_precedence_le _) (by decide)⟩

section Openings

variable {stratum : Stratum} (hle : stratum.level ≤ 8) {state : ParserState}
  (hs : state.window.Ended)
include hle hs

theorem reference_opens (hkind : state.window.current.kind = .ident) :
    Opens stratum reference state := by
  refine (Later.refl state).reads (.of_primary hle ?_)
  rw [hs.ahead_eq (by simp [hkind])]
  exact .reference hkind

theorem integer_opens (hkind : state.window.current.kind = .int) :
    Opens stratum integer state := by
  rw [Opens, Gives, integer, meets_bind, meets_current]
  split
  · exact True.intro
  · rename_i value hvalue
    rw [meets_ite, meets_ite]
    refine ⟨fun _ => True.intro, fun _ => ⟨fun _ => True.intro, fun hrange => ?_⟩⟩
    refine (Later.refl state).reads (.of_primary hle ?_)
    rw [hs.ahead_eq (by simp [hkind])]
    exact .integer hkind hvalue (Nat.not_lt.1 hrange)

theorem boolean_opens
    (hkind : state.window.current.kind = .trueWord ∨ state.window.current.kind = .falseWord) :
    Opens stratum boolean state := by
  rw [Opens, Gives, boolean, meets_bind, meets_current, meets_pure]
  refine (Later.refl state).reads (.of_primary hle ?_)
  rcases hkind with hkind | hkind
  · rw [hs.ahead_eq (by simp [hkind]), hkind]
    exact .trueWord hkind
  · rw [hs.ahead_eq (by simp [hkind]), hkind]
    exact .falseWord hkind

variable (h : Sound parts)
include h

theorem unary_opens
    (hkind : state.window.current.kind = .bang ∨ state.window.current.kind = .minus) :
    Opens stratum (unary parts) state := by
  rw [Opens, Gives, unary, meets_bind, meets_current, meets_bind, meets_advance]
  refine Gives.bind (h.expression .sign _ (state.later_advance.ended hs)) fun operand t ht => ?_
  refine ht.of_advance.imp fun hoperand => ⟨.signed, hle, ?_, hoperand.2⟩
  rw [hs.ahead_eq (by rcases hkind with hkind | hkind <;> simp [hkind])]
  exact .unary hkind hoperand.1

theorem group_opens (hkind : state.window.current.kind = .lparen) :
    Opens stratum (group parts) state := by
  have hended := state.later_advance.ended hs
  rw [Opens, Gives, group, meets_bind, meets_advance]
  refine Gives.bind (h.expression .lowest _ hended) fun tree t ht => Gives.expect fun hcloses => ?_
  refine ht.of_advance.advance.imp fun htree => .of_primary hle ?_
  have htree := htree.1
  rw [(ht.1.ended hended).tail_eq (by simp [hcloses])] at htree
  rw [hs.ahead_eq (by simp [hkind])]
  exact .group hkind htree hcloses

theorem conditional_opens (hkind : state.window.current.kind = .ifWord) :
    Opens stratum (conditional parts) state := by
  rw [Opens, Gives, conditional, meets_bind, meets_current]
  refine Gives.expect fun hopens => ?_
  have hahead : state.window.ahead = state.window.current :: state.window.upcoming ::
      state.window.ahead.tail.tail := by
    rw [← hs.tail_eq (by simp [hopens]), ← hs.ahead_eq (by simp [hkind])]
  have hstart := (state.later_advance.trans state.advance.later_advance).ended hs
  rw [Gives, meets_bind, meets_advance]
  refine Gives.bind (h.expression .lowest _ hstart) fun condition t ht => Gives.expect fun hcloses => ?_
  have htended := ht.1.ended hstart
  have htail := htended.tail_eq (by simp [hcloses])
  refine Gives.expect fun hbrace => ?_
  have hbody := (t.later_advance.trans t.advance.later_advance).ended htended
  refine Gives.bind (h.block _ hbody hbrace) fun found u hu => ?_
  have hread := ht.of_advance.of_advance.trans hu.of_advance.of_advance fun hcondition hblock =>
    And.intro (htail ▸ hcondition.1) hblock
  rw [Gives, meets_bind, meets_upcoming, meets_ite]
  refine ⟨fun helse => ?_, fun _ => ?_⟩
  · have huended := hu.1.ended hbody
    have hutail := huended.tail_eq (by simp [helse])
    rw [meets_bind, meets_advance]
    refine Gives.expect fun helseBrace => ?_
    have helseBody := (u.later_advance.trans u.advance.later_advance).ended huended
    refine Gives.bind (h.block _ helseBody helseBrace) fun other v hv => ?_
    refine hread.trans hv.of_advance.of_advance fun hthen helseBlock => .of_primary hle ?_
    rw [hahead]
    rw [hutail] at hthen
    exact .ifThenElse hkind hopens hthen.1 hcloses hthen.2 helse helseBlock
  · refine hread.imp fun hthen => .of_primary hle ?_
    rw [hahead]
    exact .ifThen hkind hopens hthen.1 hcloses hthen.2

theorem function_opens (hkind : state.window.current.kind = .function) :
    Opens stratum (function parts) state := by
  rw [Opens, Gives, function, meets_bind, meets_current]
  refine Gives.expect fun hopens => ?_
  have hstart := state.later_advance.ended hs
  refine Gives.bind (parameters_sound _ hstart) fun names t ht => Gives.expect fun hbrace => ?_
  have hbody := t.later_advance.ended (ht.1.ended hstart)
  refine Gives.bind (h.block _ hbody hbrace) fun found u hu => ?_
  refine ht.of_advance.trans hu.of_advance fun hnames hblock => .of_primary hle ?_
  rw [hs.ahead_eq (by simp [hkind]), hs.tail_eq (by simp [hopens])]
  exact .function hkind hopens hnames hblock

theorem opening_opens {kind : Opening}
    (hkind : Grammar.standard.opening? state.window.current.kind = some kind) :
    Opens stratum (opening parts kind) state := by
  have hkind := Grammar.standard_opening? hkind
  cases kind with
  | reference => exact reference_opens hle hs hkind
  | integer => exact integer_opens hle hs hkind
  | boolean => exact boolean_opens hle hs hkind
  | unary => exact unary_opens hle hs h hkind
  | group => exact group_opens hle hs h hkind
  | conditional => exact conditional_opens hle hs h hkind
  | function => exact function_opens hle hs h hkind

end Openings

/-! ## Expressions -/

/-- An operator takes what has been read so far for its left operand. -/
theorem binary_sound (h : Sound parts) {stratum : Stratum} {input : List Token} {left : Node}
    {state : ParserState} (hs : state.window.Ended)
    (hoperator : state.window.current.kind ∈ stratum.operators)
    (hleft : Derives Settled (.expression stratum left) input state.window.ahead) :
    (binary parts left).Gives state fun tree after =>
      state.Reads after (LeftOf stratum input tree after) := by
  have hlevel := (Stratum.level_of_mem hoperator).1
  have heof : state.window.current.kind ≠ .eof := by
    intro heof
    rw [heof] at hoperator
    revert hoperator
    cases stratum <;> decide
  rw [hs.ahead_eq heof] at hleft
  rw [Gives, binary, meets_bind, meets_current, meets_bind, meets_advance]
  refine Gives.bind (h.expression _ _ (state.later_advance.ended hs)) fun right t ht => ?_
  refine ht.of_advance.imp fun hright => ⟨stratum, Nat.le_refl _, ?_, hlevel ▸ hright.2⟩
  have hright := hright.1
  rw [Stratum.stratum_of_mem hoperator] at hright
  exact .binary hleft hoperator hright

/-- A list of arguments takes what has been read so far for its callee. -/
theorem call_sound (h : Sound parts) {input : List Token} {callee : Node} {state : ParserState}
    (hs : state.window.Ended) (hopens : state.window.current.kind = .lparen)
    (hcallee : Derives Settled (.expression .applied callee) input state.window.ahead) :
    (call parts callee).Gives state fun tree after =>
      state.Reads after (LeftOf .applied input tree after) := by
  rw [hs.ahead_eq (by simp [hopens])] at hcallee
  rw [Gives, call, meets_bind, meets_current]
  refine Gives.bind (arguments_sound h _ hs) fun arguments t ht => ?_
  exact ht.imp fun harguments => ⟨.applied, Nat.le_refl _, .call hcallee hopens harguments,
    TokenKind.level_precedence_le _⟩

theorem continuation_sound (h : Sound parts) {stratum : Stratum} {input : List Token} {left : Node}
    {state : ParserState} {kind : Continuation} (hs : state.window.Ended)
    (hkind : Grammar.standard.continuation? state.window.current.kind = some kind)
    (hlevel : stratum.level ≤ 8)
    (hle : stratum.level ≤ state.window.current.kind.precedence.level)
    (hleft : ∃ stratum' : Stratum,
      state.window.current.kind.precedence.level ≤ stratum'.level ∧
      Derives Settled (.expression stratum' left) input state.window.ahead) :
    (continuation parts kind left).Gives state fun tree after =>
      state.Reads after (LeftOf stratum input tree after) := by
  obtain ⟨stratum', htight, hleft⟩ := hleft
  have hkind := Grammar.standard_continuation? hkind
  cases kind with
  | binary =>
    obtain ⟨stratum'', hoperator⟩ := hkind
    have hstratum := (Stratum.level_of_mem hoperator).1
    refine (binary_sound h hs hoperator (hleft.loosen (hstratum ▸ htight))).mono
      fun tree t ht => ht.imp ?_
    rintro ⟨inner, hinner, htree⟩
    exact ⟨inner, Nat.le_trans (hstratum ▸ hle) hinner, htree⟩
  | call =>
    have hcall : state.window.current.kind.precedence.level = Stratum.applied.level := by
      rw [hkind]
      rfl
    refine (call_sound h hs hkind (hleft.loosen (hcall ▸ htight))).mono fun tree t ht => ht.imp ?_
    rintro ⟨inner, hinner, htree⟩
    exact ⟨inner, Nat.le_trans (Nat.le_trans hlevel (by decide)) hinner, htree⟩

/-- The loop keeps what has been read since some `origin` a left operand. -/
theorem climb_sound (h : Sound parts) (threshold : Precedence) {origin : ParserState}
    (horigin : origin.window.Ended) : ∀ (rounds : Nat) (left : Node) (state : ParserState),
    origin.Reads state (LeftOf threshold.stratum origin.window.ahead left state) →
    (climb .standard parts threshold rounds left).Gives state fun tree after =>
      origin.Reads after
        (Derives Settled (.expression threshold.stratum tree) origin.window.ahead
            after.window.ahead.tail ∧
          after.window.upcoming.kind.precedence.level ≤ threshold.level)
  | 0, _, _, _ => True.intro
  | rounds + 1, left, state, hstate => by
    have hs := hstate.1.ended horigin
    rw [climb, Gives, meets_bind, meets_upcoming, meets_ite]
    refine ⟨fun htighter => ?_, fun htighter => ?_⟩
    · have hbinds := Grammar.standard_continuation?_ne_none htighter
      split
      · exact absurd ‹_› hbinds
      · rename_i kind hkind
        have hlevel := threshold.level_stratum_le
        rw [meets_bind, meets_advance]
        refine Gives.bind (gives_of_reads hstate.advance (.continuation h.forward kind left) ?_)
          fun left' t ht => climb_sound h threshold horigin rounds left' t ht
        rintro ⟨stratum, -, hleft, htight⟩
        exact continuation_sound h (state.later_advance.ended hs) hkind hlevel.1
          (Nat.le_trans hlevel.2 htighter) ⟨stratum, htight, hleft⟩
    · refine hstate.imp ?_
      rintro ⟨stratum, hle, hleft, -⟩
      exact ⟨hleft.loosen hle, Nat.not_lt.1 htighter⟩

theorem expressionWith_sound (h : Sound parts) (threshold : Precedence) {state : ParserState}
    (hs : state.window.Ended) :
    (expressionWith .standard parts threshold).Gives state fun tree after => state.Reads after
      (Derives Settled (.expression threshold.stratum tree) state.window.ahead
          after.window.ahead.tail ∧
        after.window.upcoming.kind.precedence.level ≤ threshold.level) := by
  rw [expressionWith, Gives, meets_bind, meets_current]
  split
  · exact True.intro
  · rename_i kind hkind
    refine Gives.bind (opening_opens threshold.level_stratum_le.1 hs h hkind) fun left t ht => ?_
    rw [Gives, meets_bind, meets_remaining]
    exact climb_sound h threshold hs _ left t ht

/-! ## Statements -/

theorem closeStatement_sound {state : ParserState} (hs : state.window.Ended) {tree : Node}
    {input : List Token}
    (h : Derives Settled (.expression .disjunction tree) input state.window.ahead.tail)
    (hsettled : state.window.upcoming.kind.precedence.level ≤ Precedence.lowest.level) :
    closeStatement.Gives state fun _ after => state.Reads after
      (Derives Settled (.closed tree) input after.window.ahead.tail) := by
  have hlowest : Settled input state.window.ahead.tail := by
    intro token htoken
    rw [TokenStream.upcoming_eq htoken] at hsettled
    revert hsettled
    cases token.kind.precedence <;> decide
  rw [closeStatement, Gives, meets_bind, meets_upcoming, meets_ite]
  refine ⟨fun hmark => ?_, fun _ => (Later.refl state).reads (.bare h hlowest)⟩
  rw [hs.tail_eq (by simp [hmark])] at h hlowest
  exact state.later_advance.reads (.semicolon h hlowest hmark)

/-- The expression of a statement, with the semicolon behind it, makes the statement. -/
theorem lead_sound (h : Sound parts) {make : Node → Node} {origin state : ParserState}
    (hs : state.window.Ended) (hlater : origin.Reads state True)
    (hlead : Lead origin.window.ahead state.window.ahead make) :
    Gives (do
        let inner ← parts.expression .lowest
        closeStatement
        return make inner) state
      fun tree after => origin.Reads after
        (Derives Settled (.statement tree) origin.window.ahead after.window.ahead.tail) := by
  refine Gives.bind (h.expression .lowest _ hs) fun inner t ht => ?_
  refine Gives.bind (gives_of_reads ht .closeStatement fun hinner =>
    closeStatement_sound (ht.1.ended hs) hinner.1 hinner.2) fun _ u hu => ?_
  exact hlater.trans hu fun _ hclosed => .statement hlead hclosed

theorem statement_sound (h : Sound parts) {state : ParserState} (hs : state.window.Ended)
    (hne : state.window.current.kind ≠ .eof) :
    (statement parts).Gives state fun tree after => state.Reads after
      (Derives Settled (.statement tree) state.window.ahead after.window.ahead.tail) := by
  have hahead := hs.ahead_eq hne
  rw [statement, Gives, meets_bind, meets_current]
  split
  · rename_i hword
    rw [binding, meets_bind, meets_current]
    refine Gives.expect fun hname => ?_
    rw [Gives, name, meets_bind, meets_bind, meets_current, meets_pure]
    refine Gives.expect fun hsign => ?_
    rw [Gives, meets_bind, meets_advance]
    have hlater := state.later_advance.trans
      (state.advance.later_advance.trans state.advance.advance.later_advance)
    refine lead_sound h (hlater.ended hs) (hlater.reads True.intro) ?_
    have htail := (state.later_advance.ended hs).tail_eq (by simp [hsign])
    rw [ahead_advance] at htail
    rw [hahead, hs.tail_eq (by simp [hname]), htail]
    exact .binding hword hname hsign
  · rename_i hword
    rw [result, meets_bind, meets_current, meets_bind, meets_advance]
    refine lead_sound h (state.later_advance.ended hs) (state.later_advance.reads True.intro) ?_
    rw [hahead]
    exact .result hword
  · rw [expressionStatement, meets_bind, meets_current]
    refine lead_sound h hs ((Later.refl state).reads True.intro) ?_
    rw [hahead]
    exact .expression

/-- Whatever statements are read up to the end of the list, one of them was malformed or they are
derived, all of them. -/
theorem statementsWith_sound (h : Sound parts) (closing : List TokenKind) :
    ∀ (rounds : Nat) (state : ParserState), state.window.Ended →
    (statementsWith parts closing rounds).Gives state fun trees after => state.Reads after
      (Derives Settled (.statements trees) state.window.ahead after.window.ahead ∧
        (after.window.current.kind = .eof ∨ after.window.current.kind ∈ closing))
  | 0, _, _ => True.intro
  | rounds + 1, state, hs => by
    rw [statementsWith, Gives, meets_bind, meets_current, meets_ite]
    refine ⟨fun hstop => ?_, fun hopen => ?_⟩
    · simp only [Bool.or_eq_true, decide_eq_true_eq] at hstop
      exact (Later.refl state).reads ⟨.noStatements, hstop⟩
    · have hne : state.window.current.kind ≠ .eof := by simp_all
      rw [meets_bind, meets_attempt]
      have hstatement := statement_sound h hs hne
      have hforward := Forward.statement h.forward state True.intro
      refine (hstatement.and hforward).mono (fun first t ht => ?_) (fun d t ht => ?_)
        (fun _ _ => True.intro)
      · have hended := ht.2.ended hs
        rw [meets_bind, meets_advance]
        refine Gives.bind (statementsWith_sound h closing rounds t.advance
          (t.later_advance.ended hended)) fun others u hu => ?_
        exact ht.1.trans hu.of_advance fun hfirst hothers =>
          ⟨.someStatements hfirst hothers.1, hothers.2⟩
      · have hskip := (t.record d).later_skip closing
        have hadvance := hskip.trans (ParserState.later_advance _)
        rw [meets_bind, meets_skipTo, meets_bind, meets_current, meets_ite, meets_pure]
        refine ⟨fun _ => .of_record ht.2 d hskip, fun _ => ?_⟩
        rw [meets_bind, meets_advance]
        exact ((Forward.statementsWith h.forward closing rounds).gives _).mono
          fun _ _ hu => .of_record ht.2 d (hadvance.trans hu)

theorem blockWith_sound (h : Sound parts) {state : ParserState} (hs : state.window.Ended)
    (hbrace : state.window.current.kind = .lbrace) :
    (blockWith parts).Gives state fun found after => state.Reads after
      (Derives Settled (.block found.1 found.2) state.window.ahead after.window.ahead.tail) := by
  rw [blockWith, Gives, meets_bind, meets_current, meets_bind, meets_advance, meets_bind,
    meets_remaining]
  refine Gives.bind (statementsWith_sound h _ _ _ (state.later_advance.ended hs))
    fun body t ht => ht.of_advance.imp fun hbody => ?_
  obtain ⟨hbody, hstop⟩ := hbody
  have hended := (state.later_advance.trans ht.1).ended hs
  rw [ahead_advance] at hbody
  rw [hs.ahead_eq (by simp [hbrace])]
  rcases hstop with heof | hcloses
  · rw [hended.ahead_eq_nil heof] at hbody ⊢
    exact .endedBlock hbrace hbody
  · have hcloses := List.mem_singleton.1 hcloses
    rw [hended.ahead_eq (by simp [hcloses])] at hbody
    exact .block hbrace hbody hcloses

/-! ## The whole circle -/

theorem sound_upTo : ∀ depth, Sound (Parts.upTo .standard depth)
  | 0 =>
    { forward := forward_upTo _ 0
      expression := fun _ _ _ => True.intro
      block := fun _ _ _ => True.intro }
  | depth + 1 =>
    { forward := forward_upTo _ (depth + 1)
      expression := fun threshold _ hs => expressionWith_sound (sound_upTo depth) threshold hs
      block := fun _ hs hbrace => blockWith_sound (sound_upTo depth) hs hbrace }

/-- **A program that is read without a diagnostic is derived from the grammar**, with the tree that
is returned, and with settled statements. -/
theorem program_sound {state : ParserState} (hs : state.window.Ended) :
    (program .standard).Gives state fun trees after => state.Reads after
      (Derives Settled (.statements trees) state.window.ahead []) := by
  rw [program, withParts, Gives, meets_bind, meets_remaining, meets_bind, meets_remaining]
  refine Gives.mono (statementsWith_sound (sound_upTo _) [] _ _ hs) fun trees t ht =>
    ht.imp fun htrees => ?_
  have heof := htrees.2.resolve_right (List.not_mem_nil)
  rw [← (ht.1.ended hs).ahead_eq_nil heof]
  exact htrees.1

end Parser

end MonkeyLang
