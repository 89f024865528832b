import MonkeyLang.Proofs.Grammar.Completeness
import MonkeyLang.Proofs.Parsing.Termination

/-!
# Settled expressions are as long as possible

In a derivation with settled statements every expression is as long as the grammar allows
(`Derives.longest`).  This is a fact about the grammar, and it is shown by means of the parser.  Of
two expressions at the start of the same tokens the parser follows both: it stops where the settled
one ends (`Derives.follow`), and it does not stop before the other one ends (`Derives.passes`),
whatever stands behind that.
-/

set_option autoImplicit false

namespace MonkeyLang

open MonkeyLang.Parser MonkeyLang.ParserState

/-! ## Passing expressions -/

theorem ParserState.Later.tail_suffix {first second : ParserState} (h : first.Later second) :
    second.window.ahead.tail <:+ first.window.ahead.tail := by
  obtain ⟨front, hfront⟩ := h.ahead
  cases front with
  | nil =>
    rw [← hfront]
    exact List.suffix_refl _
  | cons first front =>
    rw [← hfront]
    exact (List.tail_suffix _).trans (List.suffix_append front _)

/-- Parsers of any depth, entered where the expression begins, do not stop before it ends. -/
def Passes (stratum : Stratum) (input rest : List Token) : Prop :=
  ∀ (depth : Nat) (threshold : Precedence) (state : ParserState), threshold.level ≤ 8 →
    threshold.stratum.level ≤ stratum.level → state.window.Ended → state.window.ahead = input →
    (expressionWith .standard (.upTo .standard depth) threshold).Gives state
      fun _ after => after.window.ahead.tail <:+ rest

/-- The loop only goes on. -/
theorem climb_passes {threshold : Precedence} {depth rounds : Nat} {left : Node}
    {state : ParserState} {rest : List Token} (h : state.window.ahead.tail <:+ rest) :
    (climb .standard (.upTo .standard depth) threshold rounds left).Gives state
      fun _ after => after.window.ahead.tail <:+ rest :=
  ((Forward.climb (forward_upTo _ depth) threshold rounds left).gives state).mono
    fun _ _ hlater => hlater.tail_suffix.trans h

theorem Passes.expression {stratum : Stratum} {input rest : List Token}
    (h : Passes stratum input rest) {threshold : Precedence} (hthreshold : threshold.level ≤ 8)
    (hlevel : threshold.stratum.level ≤ stratum.level) {state : ParserState}
    (hs : state.window.Ended) (hahead : state.window.ahead = input) :
    ∀ depth, ((Parts.upTo .standard depth).expression threshold).Gives state
      fun _ after => after.window.ahead.tail <:+ rest
  | 0 => True.intro
  | depth + 1 => h depth threshold state hthreshold hlevel hs hahead

theorem OpensWith.passes {tree : Node} {input rest : List Token} (h : OpensWith tree input rest) :
    Passes .primary input rest := by
  obtain ⟨first, others, kind, rfl, hkind, hopening⟩ := h
  intro depth threshold state _ _ hs hahead
  refine expressionWith_meets hahead hkind (Meets.mono (hopening depth state hs hahead)
    (fun found t ht rounds => ?_) (fun _ _ => False.elim) fun _ => id)
  exact climb_passes (ht.2.rest ▸ List.suffix_refl _)

/-- If there is an `else` behind a conditional, the parser reads more than the conditional. -/
theorem Passes.ifThen {word opens closes brace : Token} {condition : Node} {body : List Node}
    {input middle rest : List Token} (hword : word.kind = .ifWord) (hopens : opens.kind = .lparen)
    (hcondition : (Phrase.expression .disjunction condition).Follows input (closes :: middle))
    (hcloses : closes.kind = .rparen) (hbrace : (Phrase.block brace body).Starts middle)
    (hbody : (Phrase.block brace body).Follows middle rest) :
    Passes .primary (word :: opens :: input) rest := by
  intro depth threshold state _ _ hs hahead
  refine expressionWith_meets hahead (by rw [hword]; rfl) ?_
  refine OpensWith.condition hopens hcondition hcloses hbrace hbody hs hahead
    fun after hreach => ?_
  refine Gives.mono (Forward.gives (?_ : Forward .any (fun _ => True) _) after)
    fun left t hlater rounds => climb_passes ?_
  · exact .bind .upcoming fun _ => .ite (.bind .advance fun _ => .bind (.expect _) fun _ =>
      .bind (forward_upTo _ depth).block fun _ => .pure _) (.pure _)
  · exact hreach.rest ▸ hlater.tail_suffix

theorem Passes.call {opens : Token} {callee : Node} {arguments : List Node}
    {input middle rest : List Token}
    (hcallee : (Phrase.expression .applied callee).Follows input (opens :: middle))
    (hopens : opens.kind = .lparen)
    (harguments : (Phrase.arguments arguments).Follows middle rest) :
    Passes .applied input rest := by
  intro depth threshold state hthreshold hlevel hs hahead
  refine hcallee depth threshold state _ _ hthreshold hlevel
    (head?_cons (by rw [hopens]; decide)) hs hahead fun after rounds hreach => ?_
  have htight := Precedence.lt_of_lparen hthreshold hopens
  refine climb_continues hreach (by rw [hopens]; rfl) htight (fun rounds => ?_) rounds
  have hreach := hreach.advance
  rw [Parser.continuation, Parser.call, meets_bind, meets_current]
  exact Succeeds.bind (harguments depth _ (hreach.later.ended hs) hreach.rest)
    fun found t ht => climb_passes (ht.2.rest ▸ List.suffix_refl _)

theorem Passes.unary {sign : Token} {input rest : List Token}
    (hsign : sign.kind = .bang ∨ sign.kind = .minus) (h : Passes .signed input rest) :
    Passes .signed (sign :: input) rest := by
  intro depth threshold state _ _ hs hahead
  refine expressionWith_meets hahead (Grammar.standard_opening?_of_sign hsign) ?_
  rw [Parser.opening, Parser.unary, meets_bind, meets_current, meets_bind, meets_advance]
  have hlevel : Precedence.sign.level ≤ 8 := Nat.le_refl _
  exact Gives.bind (h.expression hlevel (by decide) (state.later_advance.ended hs)
    (TokenStream.tail_of_ahead hahead) depth) fun found t ht rounds => climb_passes ht

theorem Passes.binary {stratum : Stratum} {operator : Token} {left : Node}
    {input middle rest : List Token}
    (hleft : (Phrase.expression stratum left).Follows input (operator :: middle))
    (hoperator : operator.kind ∈ stratum.operators) (hright : Passes stratum.tighter middle rest) :
    Passes stratum input rest := by
  intro depth threshold state hthreshold hlevel hs hahead
  obtain ⟨hprecedence, -, hlow⟩ := Stratum.level_of_mem hoperator
  obtain ⟨hbinary, helse⟩ := Stratum.standard_of_mem hoperator
  have htight := Precedence.lt_of_mem hlevel hoperator
  refine hleft depth threshold state _ _ hthreshold hlevel
    (head?_cons ⟨Nat.le_of_eq hprecedence, helse⟩) hs hahead fun after rounds hreach => ?_
  refine climb_continues hreach hbinary htight (fun rounds => ?_) rounds
  have hcurrent : after.advance.window.current = operator :=
    TokenStream.upcoming_of_tail hreach.rest
  have hreach := hreach.advance
  rw [Parser.continuation, Parser.binary, meets_bind, meets_current, hcurrent, meets_bind,
    meets_advance]
  have hright' := hright.expression (by omega : operator.kind.precedence.level ≤ 8)
    (Nat.le_of_eq (by rw [Stratum.stratum_of_mem hoperator]))
    ((hreach.later.trans (later_advance _)).ended hs) hreach.rest depth
  exact Gives.bind hright' fun found t ht => climb_passes ht

/-- The parser does not stop before a derived expression ends. -/
theorem Derives.passes {phrase : Phrase} {input rest : List Token}
    (h : Derives Settled phrase input rest) : ∀ {stratum : Stratum} {tree : Node},
    phrase = .expression stratum tree → Passes stratum input rest := by
  induction h with
  | reference hname =>
    rintro _ _ ⟨⟩
    exact (OpensWith.reference hname).passes
  | integer htoken hvalue hrange =>
    rintro _ _ ⟨⟩
    exact (OpensWith.integer htoken hvalue hrange).passes
  | trueWord hword =>
    rintro _ _ ⟨⟩
    exact (OpensWith.boolean (.inl ⟨hword, rfl⟩)).passes
  | falseWord hword =>
    rintro _ _ ⟨⟩
    exact (OpensWith.boolean (.inr ⟨hword, rfl⟩)).passes
  | group hopens h hcloses =>
    rintro _ _ ⟨⟩
    exact (OpensWith.group hopens h.follow hcloses).passes
  | ifThen hword hopens hcondition hcloses hbody =>
    rintro _ _ ⟨⟩
    exact .ifThen hword hopens hcondition.follow hcloses hbody.starts hbody.follow
  | ifThenElse hword hopens hcondition hcloses hbody helse helseBody =>
    rintro _ _ ⟨⟩
    exact (OpensWith.ifThenElse hword hopens hcondition.follow hcloses hbody.starts hbody.follow
      helse helseBody.starts helseBody.follow).passes
  | function hword hopens hnames hbody =>
    rintro _ _ ⟨⟩
    exact (OpensWith.function hword hopens hnames hbody.starts hbody.follow).passes
  | call hcallee hopens harguments =>
    rintro _ _ ⟨⟩
    exact .call hcallee.follow hopens harguments.follow
  | unary hsign _ ih =>
    rintro _ _ ⟨⟩
    exact .unary hsign (ih rfl)
  | binary hleft hoperator _ _ ih =>
    rintro _ _ ⟨⟩
    exact .binary hleft.follow hoperator (ih rfl)
  | @ofTighter stratum _ _ _ _ ih =>
    rintro _ _ ⟨⟩ depth threshold state hthreshold hlevel
    exact ih rfl depth threshold state hthreshold (Nat.le_trans hlevel stratum.level_le_tighter)
  | _ => rintro _ _ ⟨⟩

/-! ## Longest expressions -/

/-- A parser that can neither be given up nor stop at a diagnostic has a result. -/
theorem Parser.exists_result {α : Type} {parser : Parser α} {state : ParserState}
    {good : α → ParserState → Prop}
    (h : parser.Meets state good (fun _ _ => False) fun _ => False) :
    ∃ a after, good a after := by
  unfold Meets at h
  split at h
  · exact ⟨_, _, h⟩
  · exact h.elim
  · exact h.elim

/-- A settled expression is as long as any. -/
theorem Derives.longest_of_settled {tree : Node} {input rest : List Token}
    (h : Derives Settled (.expression .disjunction tree) input rest)
    (hsettled : Settled input rest) (helse : ∀ token ∈ rest.head?, token.kind ≠ .elseWord)
    (hlegible : ∀ token ∈ input, token.kind ≠ .eof ∧ token.Legible) : Longest input rest := by
  intro tree' rest' h'
  obtain ⟨tree'', h''⟩ := h'.settles
  let state : ParserState := { window := ⟨input, ⟨.eof, "", {}⟩⟩ }
  let depth := input.length + 1
  have hs : state.window.Ended := ⟨rfl, fun token htoken => (hlegible token htoken).1⟩
  have hready : state.Ready depth :=
    ⟨Nat.lt_succ_self _, rfl, fun token htoken => (hlegible token htoken).2⟩
  have hstops := lowest_follows h.follow
    (fun token htoken => ⟨hsettled token htoken, helse token htoken⟩) hs rfl depth
  have hlowest : Precedence.lowest.level ≤ 8 := by decide
  have hpasses := (h''.passes rfl).expression hlowest (by decide) hs rfl depth
  have hends := (finite_upTo Grammar.tame_standard depth).forward.expression .lowest state
    (hready.bounded fun _ => False)
  obtain ⟨found, after, ⟨-, hreach⟩, hsuffix, -⟩ := exists_result <|
    Meets.mono (hstops.and (hpasses.and hends)) (fun _ _ => id) (fun _ _ h => h.1)
      fun _ h => h.2.2
  exact (hreach.rest ▸ hsuffix).length_le

/-- **Settled derivations have the longest expressions.** -/
theorem Derives.longest {phrase : Phrase} {input rest : List Token}
    (h : Derives Settled phrase input rest) (hcomplete : phrase.Complete rest)
    (hlegible : ∀ token ∈ input, token.kind ≠ .eof ∧ token.Legible) :
    Derives Longest phrase input rest := by
  refine h.relimit (fun tree input' rest' h' hsuffix helse hsettled => ?_) (List.suffix_refl _)
    hcomplete
  exact h'.longest_of_settled hsettled helse fun token htoken =>
    hlegible token (hsuffix.subset htoken)

end MonkeyLang
