import MonkeyLang.Proofs.Grammar.Derivation

/-!
# Statements can be taken as long as possible

A list of statements may be derived in several ways, since semicolons may be left out.  This file
shows that nothing is lost by always going on with an expression when the next token can continue it:
what can be derived at all can be derived with *settled* statements, whose expressions stand in front
of a token that continues no expression (`Derives.exists_settled`).

The only tokens that continue an expression and start a statement, too, are `(` and `-`.  So the step
is to merge a statement with the expression statement behind it that starts with one of the two
(`Derives.merge`): a `(` makes a call, or a longer one, out of the last operand, and a `-` becomes an
operator.  Where the tree has to be changed for this is decided by the strata alone, and the new
operand goes in at the right edge of the tree (`Derives.extend_call`, `Derives.extend_binary`).
-/

set_option autoImplicit false

namespace MonkeyLang

/-- The tokens behind an expression do not continue it. -/
def Settled (_ rest : List Token) : Prop :=
  ∀ token ∈ rest.head?, token.kind.precedence = .lowest

theorem EndsList.settled {rest : List Token} (h : EndsList rest) (input : List Token) :
    Settled input rest := by
  intro token htoken
  rw [h token htoken]
  rfl

theorem Stratum.tighter_le {stratum stratum' : Stratum} (hle : stratum.level ≤ stratum'.level)
    (hne : stratum ≠ stratum') : stratum.tighter.level ≤ stratum'.level := by
  revert hle hne
  cases stratum <;> cases stratum' <;> decide

namespace Derives

variable {limit : List Token → List Token → Prop}

/-! ## Growing a tree at its right edge -/

/-- A list of arguments behind an expression belongs to its last operand. -/
theorem extend_call {phrase : Phrase} {input middle : List Token}
    (h : Derives limit phrase input middle) : ∀ {stratum : Stratum} {tree : Node} {opens : Token}
      {arguments : List Node} {others rest : List Token},
    phrase = .expression stratum tree → middle = opens :: others → stratum.level ≤ 9 →
    opens.kind = .lparen → Derives limit (.arguments arguments) others rest →
    ∃ tree', Derives limit (.expression stratum tree') input rest := by
  induction h with
  | call hcallee hopens' harguments' =>
    rintro _ _ _ _ _ _ ⟨⟩ rfl _ hopens harguments
    exact ⟨_, .call (.call hcallee hopens' harguments') hopens harguments⟩
  | unary hsign _ ih =>
    rintro _ _ _ _ _ _ ⟨⟩ rfl hlevel hopens harguments
    obtain ⟨operand, hoperand⟩ := ih rfl rfl hlevel hopens harguments
    exact ⟨_, .unary hsign hoperand⟩
  | binary hleft hoperator _ _ ih =>
    rintro _ _ _ _ _ _ ⟨⟩ rfl hlevel hopens harguments
    have htighter := Stratum.level_of_mem hoperator
    obtain ⟨right, hright⟩ := ih rfl rfl (by omega) hopens harguments
    exact ⟨_, .binary hleft hoperator hright⟩
  | @ofTighter stratum _ _ _ h ih =>
    rintro _ _ _ _ _ _ ⟨⟩ rfl hlevel hopens harguments
    by_cases happlied : stratum = .applied
    · subst happlied
      exact ⟨_, .call (.ofTighter h) hopens harguments⟩
    · have htighter : stratum.tighter.level ≤ 9 := by
        revert hlevel happlied
        cases stratum <;> decide
      obtain ⟨tree, htree⟩ := ih rfl rfl htighter hopens harguments
      exact ⟨tree, .ofTighter htree⟩
  | reference | integer | trueWord | falseWord | group | ifThen | ifThenElse | function =>
    rintro _ _ _ _ _ _ ⟨⟩ _ hlevel
    exact absurd hlevel (by decide)
  | _ => rintro _ _ _ _ _ _ ⟨⟩

/-- An operator and an operand without operators behind an expression take their place by the
stratum of the operator. -/
theorem extend_binary {phrase : Phrase} {input middle : List Token}
    (h : Derives limit phrase input middle) : ∀ {stratum stratum' : Stratum} {tree operand : Node}
      {operator : Token} {others rest : List Token},
    phrase = .expression stratum tree → middle = operator :: others →
    operator.kind ∈ stratum'.operators → stratum.level ≤ stratum'.level →
    Derives limit (.expression .signed operand) others rest →
    ∃ tree', Derives limit (.expression stratum tree') input rest := by
  induction h with
  | @binary stratum _ _ _ _ _ _ hleft hoperator' hright _ ih =>
    rintro _ stratum' _ _ _ _ _ ⟨⟩ rfl hoperator hle hoperand
    by_cases heq : stratum = stratum'
    · subst heq
      have hlevel := Stratum.level_of_mem hoperator
      exact ⟨_, .binary (.binary hleft hoperator' hright) hoperator
        (hoperand.loosen (by rw [hlevel.2.1]; exact hlevel.2.2))⟩
    · obtain ⟨right, hright⟩ := ih rfl rfl hoperator (Stratum.tighter_le hle heq) hoperand
      exact ⟨_, .binary hleft hoperator' hright⟩
  | @ofTighter stratum _ _ _ h ih =>
    rintro _ stratum' _ _ _ _ _ ⟨⟩ rfl hoperator hle hoperand
    by_cases heq : stratum = stratum'
    · subst heq
      have hlevel := Stratum.level_of_mem hoperator
      exact ⟨_, .binary (.ofTighter h) hoperator
        (hoperand.loosen (by rw [hlevel.2.1]; exact hlevel.2.2))⟩
    · obtain ⟨tree, htree⟩ := ih rfl rfl hoperator (Stratum.tighter_le hle heq) hoperand
      exact ⟨tree, .ofTighter htree⟩
  | reference | integer | trueWord | falseWord | group | ifThen | ifThenElse | function | call
  | unary =>
    rintro _ stratum' _ _ _ _ _ ⟨⟩ _ hoperator hle
    have hlevel := (Stratum.level_of_mem hoperator).2.2
    exact absurd (Nat.lt_of_le_of_lt hle hlevel) (by decide)
  | _ => rintro _ _ _ _ _ _ _ ⟨⟩

/-- A chain behind an expression and an operator goes in operand by operand. -/
theorem extend_chain {phrase : Phrase} {middle rest : List Token}
    (h : Derives limit phrase middle rest) : ∀ {stratum stratum' : Stratum} {tree left : Node}
      {operator : Token} {input : List Token},
    phrase = .expression stratum tree → Derives limit (.expression stratum tree) middle rest →
    Derives limit (.expression .disjunction left) input (operator :: middle) →
    operator.kind ∈ stratum'.operators →
    ∃ tree', Derives limit (.expression .disjunction tree') input rest := by
  induction h with
  | binary hleft' hoperator' hright' ihleft ihright =>
    rintro _ _ _ _ _ _ ⟨⟩ _ hleft hoperator
    obtain ⟨tree, htree⟩ := ihleft rfl hleft' hleft hoperator
    exact ihright rfl hright' htree hoperator'
  | ofTighter h ih =>
    rintro _ _ _ _ _ _ ⟨⟩ _ hleft hoperator
    exact ih rfl h hleft hoperator
  | reference | integer | trueWord | falseWord | group | ifThen | ifThenElse | function | call
  | unary =>
    rintro _ stratum' _ _ _ _ ⟨⟩ hself hleft hoperator
    exact hleft.extend_binary rfl rfl hoperator (by cases stratum' <;> decide)
      (hself.loosen (by decide))
  | _ => rintro _ _ _ _ _ _ ⟨⟩

/-- **Two expressions side by side are one** if the second starts with a token that continues an
expression. -/
theorem merge {phrase : Phrase} {middle rest : List Token} (h : Derives limit phrase middle rest) :
    ∀ {stratum : Stratum} {tree left : Node} {first : Token} {others input : List Token},
    phrase = .expression stratum tree → middle = first :: others →
    first.kind.precedence ≠ .lowest →
    Derives limit (.expression .disjunction left) input middle →
    ∃ tree', Derives limit (.expression .disjunction tree') input rest := by
  induction h with
  | group hopens h hcloses =>
    rintro _ _ _ _ _ _ ⟨⟩ _ _ hleft
    exact hleft.extend_call rfl rfl (by decide) hopens (.someArguments (.last h) hcloses)
  | call _ hopens harguments ih =>
    rintro _ _ _ _ _ _ ⟨⟩ rfl hfirst hleft
    obtain ⟨callee, hcallee⟩ := ih rfl rfl hfirst hleft
    exact hcallee.extend_call rfl rfl (by decide) hopens harguments
  | @unary sign _ _ _ hsign h =>
    rintro _ _ _ _ _ _ ⟨⟩ ⟨⟩ hfirst hleft
    rcases hsign with hsign | hsign
    · exact absurd (by rw [hsign]; rfl) hfirst
    · have hsum : sign.kind ∈ Stratum.sum.operators := by rw [hsign]; decide
      exact hleft.extend_binary rfl rfl hsum (by decide) h
  | binary _ hoperator hright ih =>
    rintro _ _ _ _ _ _ ⟨⟩ rfl hfirst hleft
    obtain ⟨tree, htree⟩ := ih rfl rfl hfirst hleft
    exact hright.extend_chain rfl hright htree hoperator
  | ofTighter _ ih =>
    rintro _ _ _ _ _ _ ⟨⟩ rfl hfirst hleft
    exact ih rfl rfl hfirst hleft
  | reference hkind | integer hkind | trueWord hkind | falseWord hkind | ifThen hkind
  | ifThenElse hkind | function hkind =>
    rintro _ _ _ _ _ _ ⟨⟩ ⟨⟩ hfirst
    exact absurd (by rw [hkind]; rfl) hfirst
  | _ => rintro _ _ _ _ _ _ ⟨⟩

end Derives

/-! ## Settled derivations -/

/-- The phrase can be derived with settled statements; its tree may be another one.  Of a statement
only the part up to the end of its expression is meant, since what is behind decides whether the
expression ends there. -/
def Phrase.Settles : Phrase → List Token → List Token → Prop
  | expression stratum _, input, rest =>
    ∃ tree, Derives Settled (.expression stratum tree) input rest
  | arguments _, input, rest => ∃ trees, Derives Settled (.arguments trees) input rest
  | list _, input, rest => ∃ trees, Derives Settled (.list trees) input rest
  | block .., input, rest => ∃ brace body, Derives Settled (.block brace body) input rest
  | closed _, input, rest => ∃ tree behind,
    Derives Settled (.expression .disjunction tree) input behind ∧
      (behind = rest ∨ ∃ mark, mark.kind = .semicolon ∧ behind = mark :: rest)
  | statement _, input, rest => ∃ make middle tree behind, Lead input middle make ∧
    Derives Settled (.expression .disjunction tree) middle behind ∧
      (behind = rest ∨ ∃ mark, mark.kind = .semicolon ∧ behind = mark :: rest)
  | statements _, input, rest =>
    EndsList rest → ∃ trees, Derives Settled (.statements trees) input rest

/-- A statement that is not settled takes over the expression of the statement behind it. -/
theorem Derives.settled_cons {make : Node → Node} {tree : Node} {others : List Node}
    {input middle behind rest : List Token} (hlead : Lead input middle make)
    (h : Derives Settled (.expression .disjunction tree) middle behind)
    (hothers : Derives Settled (.statements others) behind rest) (hrest : EndsList rest) :
    ∃ trees, Derives Settled (.statements trees) input rest := by
  by_cases hsettled : Settled middle behind
  · exact ⟨_, .someStatements (.statement hlead (.bare h hsettled)) hothers⟩
  · obtain ⟨first, hfirst, hcontinues⟩ : ∃ first ∈ behind.head?,
        first.kind.precedence ≠ .lowest := by
      simpa only [Settled, Classical.not_forall, exists_prop] using hsettled
    obtain ⟨tokens, rfl⟩ : ∃ tokens, behind = first :: tokens := List.head?_eq_some_iff.1 hfirst
    cases hothers with
    | noStatements => exact absurd (hrest.settled middle _ hfirst) hcontinues
    | someStatements hstatement hothers =>
      cases hstatement with
      | statement hlead' hclosed =>
        cases hlead' with
        | binding hword | result hword => exact absurd (by rw [hword]; rfl) hcontinues
        | expression =>
          cases hclosed with
          | semicolon h' hlimit hmark =>
            obtain ⟨tree', htree'⟩ := h'.merge rfl rfl hcontinues h
            exact ⟨_, .someStatements (.statement hlead (.semicolon htree' hlimit hmark)) hothers⟩
          | bare h' hlimit =>
            obtain ⟨tree', htree'⟩ := h'.merge rfl rfl hcontinues h
            exact ⟨_, .someStatements (.statement hlead (.bare htree' hlimit)) hothers⟩

/-- **Whatever can be derived can be derived with settled statements.** -/
theorem Derives.settles {phrase : Phrase} {input rest : List Token}
    (h : Derives Anywhere phrase input rest) : phrase.Settles input rest := by
  induction h with
  | reference hname => exact ⟨_, .reference hname⟩
  | integer htoken hvalue hrange => exact ⟨_, .integer htoken hvalue hrange⟩
  | trueWord hword => exact ⟨_, .trueWord hword⟩
  | falseWord hword => exact ⟨_, .falseWord hword⟩
  | group hopens _ hcloses ih =>
    obtain ⟨tree, htree⟩ := ih
    exact ⟨tree, .group hopens htree hcloses⟩
  | ifThen hword hopens _ hcloses _ ih ih' =>
    obtain ⟨condition, hcondition⟩ := ih
    obtain ⟨brace, body, hbody⟩ := ih'
    exact ⟨_, .ifThen hword hopens hcondition hcloses hbody⟩
  | ifThenElse hword hopens _ hcloses _ helse _ ih ih' ih'' =>
    obtain ⟨condition, hcondition⟩ := ih
    obtain ⟨brace, body, hbody⟩ := ih'
    obtain ⟨elseBrace, elseBody, helseBody⟩ := ih''
    exact ⟨_, .ifThenElse hword hopens hcondition hcloses hbody helse helseBody⟩
  | function hword hopens hnames _ ih =>
    obtain ⟨brace, body, hbody⟩ := ih
    exact ⟨_, .function hword hopens hnames hbody⟩
  | call _ hopens _ ih ih' =>
    obtain ⟨callee, hcallee⟩ := ih
    obtain ⟨arguments, harguments⟩ := ih'
    exact ⟨_, .call hcallee hopens harguments⟩
  | unary hsign _ ih =>
    obtain ⟨operand, hoperand⟩ := ih
    exact ⟨_, .unary hsign hoperand⟩
  | binary _ hoperator _ ih ih' =>
    obtain ⟨left, hleft⟩ := ih
    obtain ⟨right, hright⟩ := ih'
    exact ⟨_, .binary hleft hoperator hright⟩
  | ofTighter _ ih =>
    obtain ⟨tree, htree⟩ := ih
    exact ⟨tree, .ofTighter htree⟩
  | noArguments hcloses => exact ⟨[], .noArguments hcloses⟩
  | someArguments _ hcloses ih =>
    obtain ⟨trees, htrees⟩ := ih
    exact ⟨trees, .someArguments htrees hcloses⟩
  | last _ ih =>
    obtain ⟨tree, htree⟩ := ih
    exact ⟨_, .last htree⟩
  | more _ hcomma _ ih ih' =>
    obtain ⟨tree, htree⟩ := ih
    obtain ⟨trees, htrees⟩ := ih'
    exact ⟨_, .more htree hcomma htrees⟩
  | block hbrace _ hcloses ih =>
    obtain ⟨body, hbody⟩ := ih (by rintro _ ⟨⟩; exact hcloses)
    exact ⟨_, body, .block hbrace hbody hcloses⟩
  | endedBlock hbrace _ ih =>
    obtain ⟨body, hbody⟩ := ih (by rintro _ ⟨⟩)
    exact ⟨_, body, .endedBlock hbrace hbody⟩
  | semicolon _ _ hmark ih =>
    obtain ⟨tree, htree⟩ := ih
    exact ⟨tree, _, htree, .inr ⟨_, hmark, rfl⟩⟩
  | bare _ _ ih =>
    obtain ⟨tree, htree⟩ := ih
    exact ⟨tree, _, htree, .inl rfl⟩
  | statement hlead _ ih =>
    obtain ⟨tree, behind, htree, hbehind⟩ := ih
    exact ⟨_, _, tree, behind, hlead, htree, hbehind⟩
  | noStatements => exact fun _ => ⟨[], .noStatements⟩
  | someStatements _ _ ih ih' =>
    intro hrest
    obtain ⟨make, middle, tree, behind, hlead, htree, hbehind⟩ := ih
    obtain ⟨others, hothers⟩ := ih' hrest
    rcases hbehind with rfl | ⟨mark, hmark, rfl⟩
    · exact settled_cons hlead htree hothers hrest
    · refine ⟨_, .someStatements (.statement hlead (.semicolon htree ?_ hmark)) hothers⟩
      rintro _ ⟨⟩
      rw [hmark]
      rfl

/-- A program that can be derived can be derived with settled statements. -/
theorem Derives.exists_settled {trees : List Node} {tokens : List Token}
    (h : Derives Anywhere (.statements trees) tokens []) :
    ∃ trees', Derives Settled (.statements trees') tokens [] :=
  h.settles (by rintro _ ⟨⟩)

end MonkeyLang
