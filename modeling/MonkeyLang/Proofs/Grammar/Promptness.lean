import MonkeyLang.Proofs.Grammar.Soundness
import MonkeyLang.Proofs.Parsing.Prompt
import MonkeyLang.Proofs.Parsing.Twins

/-!
# The parsers of the language report at once

Every parser reads its construct or reports the first token that cannot stand where it stands
(`Parser.program_prompt`).  For most of them this can be read off their shape, step by step, and what is
left to say is how the construct is put together.

What has been read of an expression is an expression itself, and a continuation *extends* it.  As in
`MonkeyLang.Proofs.Grammar.Soundness`, the invariant of the loop over the operators is that it is tight
enough to be the left operand of the upcoming token.
-/

set_option autoImplicit false

namespace MonkeyLang

open MonkeyLang.Parser MonkeyLang.ParserState

/-! ## Ways to enter a parser -/

section Entries

variable {α ι : Type}

/-- The parsers are prompt when they are entered on the token before the construct. -/
abbrev PromptBefore (construct : Construct) (first : Parser α) (others : ι → Parser α) : Prop :=
  Prompt (fun _ => True) 1 1 construct (fun _ _ => True) first others

/-- The parsers are prompt when they are entered on the first token of the construct, which is of one of
the kinds. -/
abbrev PromptOn (kinds : List TokenKind) (construct : Construct) (first : Parser α)
    (others : ι → Parser α) : Prop :=
  Prompt (StandsOn kinds) 0 1 construct (fun _ _ => True) first others

/-- The parsers are prompt when they are entered on any token, which may not fit. -/
abbrev PromptAnywhere (construct : Construct) (first : Parser α) (others : ι → Parser α) : Prop :=
  Prompt (fun _ => True) 0 1 construct (fun _ _ => True) first others

/-- The parsers for expressions are prompt, and behind an expression stands no token that binds more
tightly than the threshold. -/
abbrev PromptExpression (threshold : Precedence) (first : Parser Node) (others : ι → Parser Node) :
    Prop :=
  Prompt (fun _ => True) 0 1 (.expression threshold.stratum)
    (fun _ s => s.window.upcoming.kind.precedence.level ≤ threshold.level) first others

end Entries

/-- The parsers for the parts of a construct are prompt. -/
structure PromptParts {ι : Type} (parts : Parts) (others : ι → Parts) : Prop where
  expression : ∀ threshold, PromptExpression threshold (parts.expression threshold)
    fun i => (others i).expression threshold
  block : PromptOn [.lbrace] .block parts.block fun i => (others i).block

namespace PromptParts

variable {ι κ : Type} {parts : Parts} {others : ι → Parts}

theorem reindex (f : κ → ι) (h : PromptParts parts others) :
    PromptParts parts fun k => others (f k) :=
  ⟨fun threshold => (h.expression threshold).reindex f, h.block.reindex f⟩

theorem forward (h : PromptParts parts others) : parts.Forward .any fun _ => True :=
  ⟨fun threshold => (h.expression threshold).forward, h.block.forward⟩

theorem forward' (h : PromptParts parts others) (i : ι) : (others i).Forward .any fun _ => True :=
  ⟨fun threshold => (h.expression threshold).forward' i, h.block.forward' i⟩

end PromptParts

/-- The stratum of what an expression opens with. -/
def Opening.stratum : Opening → Stratum
  | .unary => .signed
  | _ => .primary

namespace Parser

open Construct

/-! ## Lists in parentheses -/

section Lists

variable {α : Type} {item : Parser α} {one many full : Construct}

theorem items_prompt (hone : one.Easy) (last : ∀ input rest, one input rest → many input rest)
    (more : ∀ input rest, one.followedBy ((token [.comma]).followedBy many) input rest →
      many input rest) :
    ∀ (rounds : Nat) {ι : Type} {others : ι → Parser α} (rounds' : ι → Nat),
    PromptBefore one item others →
    PromptBefore many (items item rounds) fun i => items (others i) (rounds' i)
  | 0, _, _, _, h => .giveUp _ fun i => .items (h.forward' i) _
  | rounds + 1, ι, others, rounds', h => by
    refine .rounds (fun i => items (others i)) (fun _ => rfl) rounds' fun f rounds' => ?_
    have hcomma := (easy_token .comma (by decide)).followedBy (hone.mono last)
    refine ((h.reindex f).bind (easy_optional ((token [.comma]).followedBy many)) fun first =>
      .upcoming fun next => .ite (fun hkind => ?_) fun _ => ?_).imp ?_
    · have hmore := items_prompt hone last more rounds rounds' (h.reindex f)
      refine Prompt.imp (.silent (.onto [.comma] fun s hs => ?_) hcomma fun _ =>
        .take (by decide) <|
        (hmore.weaken fun _ _ => True.intro).returning _ fun _ _ _ => True.intro) fun _ _ => .inr
      exact List.mem_singleton.2 (hs.2 ▸ hkind)
    · exact (Prompt.pure _ fun _ _ => True.intro).imp fun _ _ => .inl
    · rintro input rest ⟨middle, hfirst, rfl | hmore⟩
      · exact last _ _ hfirst
      · exact more _ _ ⟨middle, hfirst, hmore⟩

theorem parenthesized_prompt {ι : Type} {others : ι → Parser α} (hone : one.Easy)
    (last : ∀ input rest, one input rest → many input rest)
    (more : ∀ input rest, one.followedBy ((token [.comma]).followedBy many) input rest →
      many input rest)
    (none : ∀ input rest, token [.rparen] input rest → full input rest)
    (some : ∀ input rest, many.followedBy (token [.rparen]) input rest → full input rest)
    (h : PromptBefore one item others) :
    PromptBefore full (parenthesized item) fun i => parenthesized (others i) := by
  have hcloses := easy_token .rparen (by decide)
  refine .upcoming fun next => .ite (fun hkind => ?_) fun _ => ?_
  · refine Prompt.imp (.silent (.onto [.rparen] fun s hs => ?_) hcloses fun _ =>
      .taken _ (by decide)) none
    exact List.mem_singleton.2 (hs.2 ▸ hkind)
  · refine Prompt.imp (.remaining fun rounds => ?_) some
    have hitems := items_prompt hone last more (rounds + 1) (fun k : ι × Nat => k.2 + 1)
      (h.reindex Prod.fst)
    exact (hitems.weaken fun _ _ => True.intro).bind hcloses fun found =>
      .silent (.expect .rparen) hcloses fun _ => .taken _ (by decide)

end Lists

/-! ## Constructs without parts -/

section Tokens

variable {ι : Type}

theorem name_prompt {able : ParserState → Prop} :
    Prompt able 1 1 .nothing (fun _ _ => True) name fun _ : ι => name :=
  .current fun _ => .pure _ fun _ _ => True.intro

theorem reference_prompt : PromptOn [.ident] (.expression .primary) reference
    fun _ : ι => reference := by
  refine Prompt.imp (.silent (.current fun word => .pure _ fun s hs => hs.1)
    (easy_token .ident (by decide)) fun _ => .taken _ (by decide)) ?_
  rintro _ rest ⟨name, hname, rfl⟩
  exact ⟨_, .reference (List.mem_singleton.1 hname)⟩

theorem boolean_prompt : PromptOn [.trueWord, .falseWord] (.expression .primary) boolean
    fun _ : ι => boolean := by
  refine Prompt.imp (.current fun word => (Prompt.taken _ (by decide)).weaken fun _ => And.left) ?_
  rintro _ rest ⟨word, hword, rfl⟩
  rcases List.mem_cons.1 hword with hword | hword
  · exact ⟨_, .trueWord hword⟩
  · exact ⟨_, .falseWord (List.mem_singleton.1 hword)⟩

theorem integer_prompt : PromptOn [.int] (.expression .primary) integer
    fun _ : ι => integer := by
  refine .current fun word => ?_
  cases hvalue : Text.numeralValue? word.literal.toList with
  | none => exact .giveUp _ fun _ => .giveUp True.intro
  | some value =>
    refine .ite (fun _ => .giveUp _ fun _ => .giveUp True.intro) fun _ => .ite (fun _ => ?_)
      fun hrange => .token _ (fun _ _ _ => easy_expression _) fun s hs _ behind => ?_
    · exact .fail (easy_expression _) fun s hs => by rw [← hs.2, TokenStream.current_eq_nth]
    · obtain ⟨hkind, rfl⟩ := hs
      exact ⟨_, .integer (List.mem_singleton.1 hkind) hvalue (Nat.not_lt.1 hrange)⟩

theorem parameter_prompt : PromptBefore (token [.ident]) parameter fun _ : ι => parameter :=
  .silent (.expect .ident) (easy_token .ident (by decide)) fun _ =>
    .current fun _ => (Prompt.taken _ (by decide)).weaken fun _ => And.left

theorem parameters_prompt : PromptBefore .parameters (parenthesized parameter)
    fun _ : ι => parenthesized parameter := by
  have last : ∀ input rest, token [.ident] input rest → nameList input rest := by
    rintro _ rest ⟨name, hname, rfl⟩
    exact ⟨_, .last (List.mem_singleton.1 hname)⟩
  refine parenthesized_prompt (easy_token .ident (by decide)) last ?_ ?_ ?_ parameter_prompt
  · rintro _ rest ⟨_, ⟨name, hname, rfl⟩, _, ⟨comma, hcomma, rfl⟩, names, hnames⟩
    exact ⟨_, .more (List.mem_singleton.1 hname) (List.mem_singleton.1 hcomma) hnames⟩
  · rintro _ rest ⟨closes, hcloses, rfl⟩
    exact ⟨_, .none (List.mem_singleton.1 hcloses)⟩
  · rintro input rest ⟨_, ⟨names, hnames⟩, closes, hcloses, rfl⟩
    exact ⟨_, .some hnames (List.mem_singleton.1 hcloses)⟩

theorem closeStatement_prompt {able : ParserState → Prop} : Prompt able 1 1
    (optional (token [.semicolon])) (fun _ _ => True) closeStatement fun _ : ι => closeStatement := by
  refine .upcoming fun next => .ite (fun hkind => ?_) fun _ => ?_
  · refine (Prompt.consume (by decide) fun s hs => ?_).imp fun _ _ => .inr
    exact List.mem_singleton.2 (hs.2 ▸ hkind)
  · exact (Prompt.pure _ fun _ _ => True.intro).imp fun _ _ => .inl

end Tokens

/-! ## Constructs with parts -/

section Constructs

variable {ι : Type} {parts : Parts} {others : ι → Parts} (h : PromptParts parts others)
include h

theorem argument_prompt : PromptBefore (.expression .disjunction) (argument parts)
    fun i => argument (others i) :=
  .silent .step (easy_expression _) fun _ =>
    (h.expression .lowest).mono (fun _ => id) (fun _ _ => id) fun _ _ _ => True.intro

theorem arguments_prompt : PromptBefore .arguments (parenthesized (argument parts))
    fun i => parenthesized (argument (others i)) := by
  have last : ∀ input rest, Construct.expression .disjunction input rest → list input rest := by
    rintro input rest ⟨tree, htree⟩
    exact ⟨_, .last htree⟩
  refine parenthesized_prompt (easy_expression _) last ?_ ?_ ?_ (argument_prompt h)
  · rintro input rest ⟨_, ⟨tree, htree⟩, _, ⟨comma, hcomma, rfl⟩, trees, htrees⟩
    exact ⟨_, .more htree (List.mem_singleton.1 hcomma) htrees⟩
  · rintro _ rest ⟨closes, hcloses, rfl⟩
    exact ⟨_, .noArguments (List.mem_singleton.1 hcloses)⟩
  · rintro input rest ⟨_, ⟨trees, htrees⟩, closes, hcloses, rfl⟩
    exact ⟨_, .someArguments htrees (List.mem_singleton.1 hcloses)⟩

theorem unary_prompt : Prompt (StandsOn [.bang, .minus]) 0 1 (.expression .signed)
    (fun _ s => s.window.upcoming.kind.precedence.level ≤ Stratum.signed.level) (unary parts)
    fun i => unary (others i) := by
  refine Prompt.imp (.take (by decide) <| .current fun sign =>
    .silent .step (easy_expression _) fun _ =>
    (h.expression .sign).returning _ fun _ _ hlevel => hlevel) ?_
  rintro _ rest ⟨_, ⟨sign, hsign, rfl⟩, operand, hoperand⟩
  exact ⟨_, .unary (by simpa using hsign) hoperand⟩

theorem group_prompt : PromptOn [.lparen] (.expression .primary) (group parts)
    fun i => group (others i) := by
  have hcloses := easy_token .rparen (by decide)
  refine Prompt.imp (.take (by decide) <|
    .silent .step ((easy_expression _).followedBy hcloses) fun _ =>
    (h.expression .lowest).bind hcloses fun inner =>
    .silent (.expect .rparen) hcloses fun _ => .taken _ (by decide)) ?_
  rintro _ rest ⟨_, ⟨opens, hopens, rfl⟩, _, ⟨tree, htree⟩, closes, hcloses, rfl⟩
  exact ⟨tree, .group (List.mem_singleton.1 hopens) htree (List.mem_singleton.1 hcloses)⟩

theorem conditional_prompt : PromptOn [.ifWord] (.expression .primary) (conditional parts)
    fun i => conditional (others i) := by
  have halternative := easy_optional ((token [.elseWord]).followedBy block)
  have hblock := easy_block.followedBy halternative
  have hcloses := (easy_token .rparen (by decide)).followedBy hblock
  have hcondition := (easy_expression .disjunction).followedBy hcloses
  have hopens := (easy_token .lparen (by decide)).followedBy hcondition
  refine Prompt.imp (.take (by decide) <| .current fun word =>
    .silent (.expect .lparen) hopens fun _ => .take (by decide) <|
    .silent .step hcondition fun _ => (h.expression .lowest).bind hcloses fun condition =>
    .silent (.expect .rparen) hcloses fun _ => .take (by decide) <|
    .silent (.expect .lbrace) hblock fun _ => h.block.bind halternative fun found =>
    .upcoming fun next => .ite (fun hkind => ?_) fun _ => ?_) ?_
  · refine Prompt.imp (.silent (.onto [.elseWord] fun s hs => List.mem_singleton.2 (hs.2 ▸ hkind))
      ((easy_token .elseWord (by decide)).followedBy easy_block) fun _ =>
      .take (by decide) <| .silent (.expect .lbrace) easy_block fun _ =>
      h.block.returning _ fun _ _ _ => True.intro) fun _ _ => .inr
  · exact (Prompt.pure _ fun _ _ => True.intro).imp fun _ _ => .inl
  · rintro _ rest ⟨_, ⟨word, hword, rfl⟩, _, ⟨opens, hopens, rfl⟩, _, ⟨condition, hcondition⟩,
      _, ⟨closes, hcloses, rfl⟩, middle, ⟨brace, body, hbody⟩, rfl | halternative⟩
    · exact ⟨_, .ifThen (List.mem_singleton.1 hword) (List.mem_singleton.1 hopens) hcondition
        (List.mem_singleton.1 hcloses) hbody⟩
    · obtain ⟨_, ⟨elseWord, helse, rfl⟩, elseBrace, elseBody, helseBody⟩ := halternative
      exact ⟨_, .ifThenElse (List.mem_singleton.1 hword) (List.mem_singleton.1 hopens) hcondition
        (List.mem_singleton.1 hcloses) hbody (List.mem_singleton.1 helse) helseBody⟩

theorem function_prompt : PromptOn [.function] (.expression .primary) (function parts)
    fun i => function (others i) := by
  have hnames : Construct.parameters.Easy := by
    refine (easy_token .rparen (by decide)).mono ?_
    rintro _ rest ⟨closes, hcloses, rfl⟩
    exact ⟨_, .none (List.mem_singleton.1 hcloses)⟩
  have hrest := hnames.followedBy easy_block
  refine Prompt.imp (.take (by decide) <| .current fun word =>
    .silent (.expect .lparen) ((easy_token .lparen (by decide)).followedBy hrest) fun _ =>
    .take (by decide) <| (parameters_prompt.weaken fun _ _ => True.intro).bind easy_block
    fun names => .silent (.expect .lbrace) easy_block fun _ =>
    h.block.returning _ fun _ _ _ => True.intro) ?_
  rintro _ rest ⟨_, ⟨word, hword, rfl⟩, _, ⟨opens, hopens, rfl⟩, _, ⟨names, hnames⟩, brace, body,
    hbody⟩
  exact ⟨_, .function (List.mem_singleton.1 hword) (List.mem_singleton.1 hopens) hnames hbody⟩

theorem opening_prompt {kind : Opening} : Prompt
    (fun s => Grammar.standard.opening? s.window.current.kind = some kind) 0 1
    (.expression kind.stratum)
    (fun _ s => s.window.upcoming.kind.precedence.level ≤ kind.stratum.level) (opening parts kind)
    fun i => opening (others i) kind := by
  have hprimary (s : ParserState) : s.window.upcoming.kind.precedence.level ≤ Stratum.primary.level :=
    Nat.le_trans (TokenKind.level_precedence_le _) (by decide)
  cases kind with
  | reference =>
    exact reference_prompt.mono (fun s hs => List.mem_singleton.2 (Grammar.standard_opening? hs))
      (fun _ _ => id) fun _ s _ => hprimary s
  | integer =>
    exact integer_prompt.mono (fun s hs => List.mem_singleton.2 (Grammar.standard_opening? hs))
      (fun _ _ => id) fun _ s _ => hprimary s
  | boolean =>
    exact boolean_prompt.mono (fun s hs => by simpa [StandsOn] using Grammar.standard_opening? hs)
      (fun _ _ => id) fun _ s _ => hprimary s
  | unary =>
    exact (unary_prompt h).weaken fun s hs => by
      simpa [StandsOn] using Grammar.standard_opening? hs
  | group =>
    exact (group_prompt h).mono (fun s hs => List.mem_singleton.2 (Grammar.standard_opening? hs))
      (fun _ _ => id) fun _ s _ => hprimary s
  | conditional =>
    exact (conditional_prompt h).mono
      (fun s hs => List.mem_singleton.2 (Grammar.standard_opening? hs)) (fun _ _ => id)
      fun _ s _ => hprimary s
  | function =>
    exact (function_prompt h).mono
      (fun s hs => List.mem_singleton.2 (Grammar.standard_opening? hs)) (fun _ _ => id)
      fun _ s _ => hprimary s

/-! ## Expressions -/

/-- An operator and its right operand extend what is read so far. -/
theorem binary_prompt (stratum : Stratum) (left : Node) :
    Prompt (StandsOn stratum.operators) 0 1 (extension stratum stratum)
      (fun _ s => s.window.upcoming.kind.precedence.level ≤ stratum.level) (binary parts left)
      fun i => binary (others i) left := by
  have heof : .eof ∉ stratum.operators := by cases stratum <;> decide
  refine .current fun operator => .assuming (p := operator.kind ∈ stratum.operators)
    (fun s hs => hs.2 ▸ hs.1) ?_ (fun i => ?_) fun hoperator => ?_
  · exact .bind .advance fun _ => .bind (h.forward.expression _) fun _ => .pure _
  · exact .bind .advance fun _ => .bind ((h.forward' i).expression _) fun _ => .pure _
  · have hright := h.expression operator.kind.precedence
    rw [PromptExpression, (Stratum.level_of_mem hoperator).1, Stratum.stratum_of_mem hoperator]
      at hright
    refine ((Prompt.take heof <| .silent .step (easy_expression _) fun _ =>
      hright.returning _ fun _ _ hlevel => hlevel).weaken fun _ => And.left).imp ?_
    rintro _ rest ⟨_, ⟨operator, hoperator, rfl⟩, right, hright⟩ origin ⟨left, hleft⟩
    exact ⟨_, .binary hleft hoperator hright⟩

/-- A list of arguments extends a callee. -/
theorem call_prompt (callee : Node) :
    PromptOn [.lparen] (extension .applied .applied) (call parts callee)
      fun i => call (others i) callee := by
  refine Prompt.imp (.take (by decide) <| .current fun opens =>
    ((arguments_prompt h).weaken fun _ _ => True.intro).returning _ fun _ _ _ => True.intro) ?_
  rintro _ rest ⟨_, ⟨opens, hopens, rfl⟩, trees, htrees⟩ origin ⟨callee, hcallee⟩
  exact ⟨_, .call hcallee (List.mem_singleton.1 hopens) htrees⟩

theorem continuation_prompt {token : TokenKind} {kind : Continuation}
    (hkind : Grammar.standard.continuation? token = some kind) (left : Node) :
    ∃ stratum : Stratum, stratum.level = token.precedence.level ∧
      Prompt (StandsOn [token]) 0 1 (extension stratum stratum)
        (fun _ s => s.window.upcoming.kind.precedence.level ≤ stratum.level)
        (continuation parts kind left) fun i => continuation (others i) kind left := by
  have htoken := Grammar.standard_continuation? hkind
  cases kind with
  | binary =>
    obtain ⟨stratum, hoperator⟩ := htoken
    refine ⟨stratum, (Stratum.level_of_mem hoperator).1.symm, (binary_prompt h stratum left).weaken
      fun s hs => ?_⟩
    rw [StandsOn, List.mem_singleton.1 hs]
    exact hoperator
  | call =>
    have hparen : token = .lparen := htoken
    rw [hparen]
    exact ⟨.applied, rfl, (call_prompt h left).mono (fun _ => id) (fun _ _ => id)
      fun _ _ _ => TokenKind.level_precedence_le _⟩

end Constructs

/-- The loop extends what is read so far, as long as it can be the left operand of the upcoming token. -/
theorem climb_prompt {parts : Parts} (threshold : Precedence) : ∀ (rounds : Nat) {ι : Type}
    {others : ι → Parts} (_ : PromptParts parts others) (rounds' : ι → Nat) (left : Node)
    {stratum : Stratum},
    threshold.stratum.level ≤ stratum.level →
    Prompt (fun s => s.window.upcoming.kind.precedence.level ≤ stratum.level) 1 1
      (extension stratum threshold.stratum)
      (fun _ s => s.window.upcoming.kind.precedence.level ≤ threshold.level)
      (climb .standard parts threshold rounds left)
      fun i => climb .standard (others i) threshold (rounds' i) left
  | 0, _, _, h, _, _, _, _ => .giveUp _ fun i => .climb (h.forward' i) _ _ _
  | rounds + 1, ι, others, h, rounds', left, stratum, hle => by
    refine .rounds (fun i rounds => climb .standard (others i) threshold rounds left) (fun _ => rfl)
      rounds' fun f rounds' => .upcoming fun next => .ite (fun htighter => ?_) fun htighter => ?_
    · cases hkind : Grammar.standard.continuation? next.kind with
      | none => exact absurd hkind (Grammar.standard_continuation?_ne_none htighter)
      | some kind =>
        refine .assuming (p := next.kind.precedence.level ≤ stratum.level) (fun s hs => hs.2 ▸ hs.1)
          ?_ (fun k => ?_) fun hbinds => ?_
        · exact .bind .advance fun _ => .bind (.continuation h.forward _ _) fun _ =>
            .climb h.forward _ _ _
        · exact .bind .advance fun _ => .bind (.continuation (h.forward' _) _ _) fun _ =>
            .climb (h.forward' _) _ _ _
        · obtain ⟨stratum', hlevel, hcontinuation⟩ := continuation_prompt (h.reindex f) hkind left
          have hle' : threshold.stratum.level ≤ stratum'.level :=
            Nat.le_trans threshold.level_stratum_le.2 (hlevel ▸ htighter)
          refine Prompt.imp (.silent (.onto [next.kind] fun s hs => ?_)
            ((easy_extension (Nat.le_refl _)).followedBy (easy_extension hle')) fun _ =>
            hcontinuation.bind (easy_extension hle') fun left' =>
              climb_prompt threshold rounds (h.reindex f) rounds' left' hle') ?_
          · rw [hs.2]
            exact List.mem_singleton_self _
          · rintro input rest ⟨middle, hfirst, hmore⟩ origin horigin
            exact hmore origin (hfirst origin (expression_loosen horigin (hlevel ▸ hbinds)))
    · refine (Prompt.pure _ fun s hs => ?_).imp fun _ _ => extension_of_nothing hle
      exact hs.2 ▸ Nat.not_lt.1 htighter

section Statements

variable {ι : Type} {parts : Parts} {others : ι → Parts} (h : PromptParts parts others)
include h

theorem expressionWith_prompt (threshold : Precedence) :
    PromptExpression threshold (expressionWith .standard parts threshold)
      fun i => expressionWith .standard (others i) threshold := by
  refine .current fun next => ?_
  cases hkind : Grammar.standard.opening? next.kind with
  | none => exact .fail (easy_expression _) fun s hs => by rw [← hs.2, TokenStream.current_eq_nth]
  | some kind =>
    have hle : threshold.stratum.level ≤ kind.stratum.level :=
      Nat.le_trans threshold.level_stratum_le.1 (by cases kind <;> decide)
    refine Prompt.imp (((opening_prompt h).weaken fun s hs => ?_).bind (easy_extension hle)
      fun left => .remaining fun rounds => climb_prompt threshold (rounds + 1) (h.reindex Prod.fst)
        (fun k => k.2 + 1) left hle) ?_
    · rw [hs.2, hkind]
    · rintro input rest ⟨middle, hleft, hmore⟩
      exact hmore input hleft

/-! ## Statements -/

theorem closed_prompt (make : Node → Node) : PromptAnywhere .closed
    (do
      let inner ← parts.expression .lowest
      closeStatement
      return make inner)
    fun i => do
      let inner ← (others i).expression .lowest
      closeStatement
      return make inner :=
  Prompt.imp ((h.expression .lowest).bind (easy_optional _) fun _ =>
    closeStatement_prompt.returning _ fun _ _ _ => True.intro) fun _ _ => closed_of_optional

theorem binding_prompt : PromptOn [.letWord] .statement (binding parts)
    fun i => binding (others i) := by
  have hsign := (easy_token .assign (by decide)).followedBy easy_closed
  have hname := (easy_token .ident (by decide)).followedBy hsign
  refine Prompt.imp (.take (by decide) <| .current fun word =>
    .silent (.expect .ident) hname fun _ => .take (by decide) <|
    .silent name_prompt hsign fun identifier =>
    .silent (.expect .assign) hsign fun _ => .take (by decide) <|
    .silent .step easy_closed fun _ => closed_prompt h _) ?_
  rintro _ rest ⟨_, ⟨word, hword, rfl⟩, _, ⟨name, hname, rfl⟩, _, ⟨sign, hsign, rfl⟩, tree, htree⟩
  exact ⟨_, .statement (.binding (List.mem_singleton.1 hword) (List.mem_singleton.1 hname)
    (List.mem_singleton.1 hsign)) htree⟩

theorem result_prompt : PromptOn [.returnWord] .statement (result parts)
    fun i => result (others i) := by
  refine Prompt.imp (.take (by decide) <| .current fun word =>
    .silent .step easy_closed fun _ => closed_prompt h _) ?_
  rintro _ rest ⟨_, ⟨word, hword, rfl⟩, tree, htree⟩
  exact ⟨_, .statement (.result (List.mem_singleton.1 hword)) htree⟩

theorem expressionStatement_prompt : PromptAnywhere .statement (expressionStatement parts)
    fun i => expressionStatement (others i) := by
  refine Prompt.imp (.current fun token =>
    (closed_prompt h (.expression token)).weaken fun _ _ => True.intro) ?_
  rintro input rest ⟨tree, htree⟩
  obtain ⟨token, tokens, rfl, -⟩ := htree.starts
  exact ⟨_, .statement .expression htree⟩

theorem statement_prompt : PromptAnywhere .statement (statement parts)
    fun i => statement (others i) := by
  simp only [statement_eq]
  refine .current fun first => .ite (fun hkind => ?_) fun _ => .ite (fun hkind => ?_) fun _ => ?_
  · exact (binding_prompt h).weaken fun s hs => List.mem_singleton.2 (hs.2 ▸ hkind)
  · exact (result_prompt h).weaken fun s hs => List.mem_singleton.2 (hs.2 ▸ hkind)
  · exact (expressionStatement_prompt h).weaken fun _ _ => True.intro

end Statements

theorem statementsWith_prompt {parts : Parts} (closing : List TokenKind) : ∀ (rounds : Nat)
    {ι : Type} {others : ι → Parts} (_ : PromptParts parts others) (rounds' : ι → Nat),
    Prompt (fun _ => True) 0 0 .statements
      (fun _ s => s.window.current.kind = .eof ∨ s.window.current.kind ∈ closing)
      (statementsWith parts closing rounds)
      fun i => statementsWith (others i) closing (rounds' i)
  | 0, _, _, h, _ => .giveUp _ fun i => .statementsWith (h.forward' i) _ _
  | rounds + 1, ι, others, h, rounds' => by
    refine .rounds (fun i => statementsWith (others i) closing) (fun _ => rfl) rounds'
      fun f rounds' => .current fun next => .ite (fun hstop => ?_) fun _ => ?_
    · refine (Prompt.pure _ fun s hs => ?_).imp fun _ _ => statements_of_nothing
      simpa [hs.2] using hstop
    · refine Prompt.imp (((statement_prompt (h.reindex f)).weaken fun _ _ => True.intro).attempt.bind
        easy_statements fun found => ?_) ?_
      · cases found with
        | some first =>
          exact .silent .step easy_statements fun _ =>
            (statementsWith_prompt closing rounds (h.reindex f) rounds').returning _ fun _ _ => id
        | none =>
          refine .assuming (p := False) (fun s hs => ?_) (.skipping h.forward _ _)
            (fun k => .skipping (h.forward' _) _ _) False.elim
          obtain ⟨_, hfound, -⟩ := hs
          cases hfound
      · rintro input rest ⟨middle, ⟨first, hfirst⟩, others, hothers⟩
        exact ⟨_, .someStatements hfirst hothers⟩

theorem blockWith_prompt {ι : Type} {parts : Parts} {others : ι → Parts}
    (h : PromptParts parts others) : PromptOn [.lbrace] .block (blockWith parts)
    fun i => blockWith (others i) := by
  have hcloses := easy_token .rbrace (by decide)
  refine Prompt.imp (.take (by decide) <| .current fun brace =>
    .silent .step (easy_statements.followedBy hcloses) fun _ => .remaining fun rounds =>
    (statementsWith_prompt [.rbrace] (rounds + 1) (h.reindex Prod.fst) fun k => k.2 + 1).bind hcloses
    fun body => .token _ (fun _ _ _ => hcloses) fun s hs heof behind => ?_) ?_
  · exact ⟨_, hs.resolve_left heof, rfl⟩
  · rintro _ rest ⟨_, ⟨brace, hbrace, rfl⟩, middle, ⟨body, hbody⟩, closes, hcloses, rfl⟩
    exact ⟨_, _, .block (List.mem_singleton.1 hbrace) hbody (List.mem_singleton.1 hcloses)⟩

/-! ## The whole circle -/

theorem prompt_upTo : ∀ (depth : Nat) {ι : Type} (depths : ι → Nat),
    PromptParts (Parts.upTo .standard depth) fun i => Parts.upTo .standard (depths i)
  | 0, _, depths =>
    { expression := fun _ => .giveUp _ fun i => (forward_upTo _ (depths i)).expression _
      block := .giveUp _ fun i => (forward_upTo _ (depths i)).block }
  | depth + 1, _, depths =>
    { expression := fun threshold =>
        .rounds (fun _ depth => (Parts.upTo .standard depth).expression threshold) (fun _ => rfl) depths
          fun _ depths => expressionWith_prompt (prompt_upTo depth depths) threshold
      block :=
        .rounds (fun _ depth => (Parts.upTo .standard depth).block) (fun _ => rfl) depths
          fun _ depths => blockWith_prompt (prompt_upTo depth depths) }

theorem program_prompt : Prompt (fun _ => True) 0 0 .statements (fun _ _ => True)
    (program .standard) fun _ : Unit => program .standard :=
  .remaining fun depth => .remaining fun rounds =>
    (statementsWith_prompt [] (rounds + 1) (prompt_upTo (depth + 1) fun k => k.1.2 + 1)
      fun k : (Unit × Nat) × Nat => k.2 + 1).mono (fun _ => id) (fun _ _ => id) fun _ _ _ => True.intro

end Parser

end MonkeyLang
