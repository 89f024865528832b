import MonkeyLang.Proofs.Grammar.Soundness
import MonkeyLang.Proofs.Scanning.Lexemes

/-!
# The numerals of a text

A numeral that is too long is noticed only when it is read, and then the parse is given up.  Of a text
that is parsed to its end it cannot be said that it has no such numeral, since behind a malformed
statement tokens are skipped.  But if there is no diagnostic, then nothing is skipped, and all numerals
of the text are in the tree (`Derives.numerals`); and a numeral that is in the tree was read and is not
too long (`Parser.short_upTo`).

So a text that is parsed without a diagnostic has no numeral that is too long (`length_le_of_parse`).
-/

set_option autoImplicit false

namespace MonkeyLang

/-! ## The numerals of a tree -/

namespace Node

mutual

/-- The tokens of the integers of a tree, from left to right. -/
def numerals : Node → List Token
  | program statements | block _ statements => numeralsAll statements
  | reference _ | boolean .. | foreign .. => []
  | integer token _ => [token]
  | unary _ _ inner | binding _ _ inner | result _ inner | expression _ inner => inner.numerals
  | binary _ left _ right => left.numerals ++ right.numerals
  | ifThen _ condition _ body => condition.numerals ++ numeralsAll body
  | ifThenElse _ condition _ body _ elseBody =>
    condition.numerals ++ (numeralsAll body ++ numeralsAll elseBody)
  | function _ _ _ body => numeralsAll body
  | call _ callee arguments => callee.numerals ++ numeralsAll arguments

/-- The tokens of the integers of some trees, from left to right. -/
def numeralsAll : List Node → List Token
  | [] => []
  | first :: rest => first.numerals ++ numeralsAll rest

end

end Node

/-- The tokens of the integers of a phrase. -/
def Phrase.numerals : Phrase → List Token
  | expression _ tree | closed tree | statement tree => tree.numerals
  | arguments trees | list trees | block _ trees | statements trees => Node.numeralsAll trees

/-- The numerals among some tokens. -/
def Token.numeralsOf (tokens : List Token) : List Token :=
  tokens.filter fun token => token.kind = .int

namespace Token

@[simp] theorem numeralsOf_nil : numeralsOf [] = [] := rfl

theorem numeralsOf_cons_self {token : Token} (h : token.kind = .int) (rest : List Token) :
    numeralsOf (token :: rest) = token :: numeralsOf rest := by
  simp [numeralsOf, h]

theorem numeralsOf_cons {token : Token} (h : token.kind ≠ .int) (rest : List Token) :
    numeralsOf (token :: rest) = numeralsOf rest := by
  simp [numeralsOf, h]

end Token

/-! ## Derivations -/

open Token in
theorem NameList.numerals {input rest : List Token} {names : List Identifier}
    (h : NameList input names rest) : numeralsOf input = numeralsOf rest := by
  induction h with
  | last hname => exact numeralsOf_cons (by simp [hname]) _
  | more hname hcomma _ ih =>
    rw [numeralsOf_cons (by simp [hname]), numeralsOf_cons (by simp [hcomma]), ih]

open Token in
theorem Parameters.numerals {input rest : List Token} {names : List Identifier}
    (h : Parameters input names rest) : numeralsOf input = numeralsOf rest := by
  cases h with
  | none hcloses => exact numeralsOf_cons (by simp [hcloses]) _
  | some h hcloses => rw [h.numerals, numeralsOf_cons (by simp [hcloses])]

open Token in
theorem Lead.numerals {input rest : List Token} {make : Node → Node} (h : Lead input rest make)
    (tree : Node) : numeralsOf input = numeralsOf rest ∧ (make tree).numerals = tree.numerals := by
  cases h with
  | binding hword hname hsign =>
    refine ⟨?_, rfl⟩
    rw [numeralsOf_cons (by simp [hword]), numeralsOf_cons (by simp [hname]),
      numeralsOf_cons (by simp [hsign])]
  | result hword => exact ⟨numeralsOf_cons (by simp [hword]) _, rfl⟩
  | expression => exact ⟨rfl, rfl⟩

theorem TokenKind.ne_int_of_mem {stratum : Stratum} {kind : TokenKind}
    (h : kind ∈ stratum.operators) : kind ≠ .int := by
  revert h
  cases stratum <;> cases kind <;> decide

open Token in
/-- No numeral is lost: those of the tokens of a phrase are those of its tree. -/
theorem Derives.numerals {limit : List Token → List Token → Prop} {phrase : Phrase}
    {input rest : List Token} (h : Derives limit phrase input rest) :
    numeralsOf input = phrase.numerals ++ numeralsOf rest := by
  induction h with
  | reference hkind | trueWord hkind | falseWord hkind | noArguments hkind =>
    rw [numeralsOf_cons (by simp [hkind])]
    rfl
  | integer hkind => exact numeralsOf_cons_self hkind _
  | group hopens _ hcloses ih =>
    rw [numeralsOf_cons (by simp [hopens]), ih, numeralsOf_cons (by simp [hcloses])]
    rfl
  | ifThen hword hopens _ hcloses _ ih ih' =>
    rw [numeralsOf_cons (by simp [hword]), numeralsOf_cons (by simp [hopens]), ih,
      numeralsOf_cons (by simp [hcloses]), ih', ← List.append_assoc]
    rfl
  | ifThenElse hword hopens _ hcloses _ helse _ ih ih' ih'' =>
    rw [numeralsOf_cons (by simp [hword]), numeralsOf_cons (by simp [hopens]), ih,
      numeralsOf_cons (by simp [hcloses]), ih', numeralsOf_cons (by simp [helse]), ih'',
      ← List.append_assoc, ← List.append_assoc, List.append_assoc _ _ (Phrase.numerals _)]
    rfl
  | function hword hopens hnames _ ih =>
    rw [numeralsOf_cons (by simp [hword]), numeralsOf_cons (by simp [hopens]), hnames.numerals, ih]
    rfl
  | call _ hmark _ ih ih' | more _ hmark _ ih ih' =>
    rw [ih, numeralsOf_cons (by simp [hmark]), ih', ← List.append_assoc]
    rfl
  | unary hsign _ ih =>
    rw [numeralsOf_cons (by rcases hsign with hsign | hsign <;> simp [hsign]), ih]
    rfl
  | binary _ hoperator _ ih ih' =>
    rw [ih, numeralsOf_cons (TokenKind.ne_int_of_mem hoperator), ih', ← List.append_assoc]
    rfl
  | ofTighter _ ih | bare _ _ ih => exact ih
  | last _ ih =>
    rw [ih]
    simp [Phrase.numerals, Node.numeralsAll]
  | someArguments _ hmark ih | semicolon _ _ hmark ih =>
    rw [ih, numeralsOf_cons (by simp [hmark])]
    rfl
  | block hbrace _ hcloses ih =>
    rw [numeralsOf_cons (by simp [hbrace]), ih, numeralsOf_cons (by simp [hcloses])]
    rfl
  | endedBlock hbrace _ ih =>
    rw [numeralsOf_cons (by simp [hbrace]), ih]
    rfl
  | @statement _ tree _ _ _ hlead _ ih =>
    rw [(hlead.numerals tree).1, ih, Phrase.numerals, Phrase.numerals, (hlead.numerals tree).2]
  | noStatements => rfl
  | someStatements _ _ ih ih' =>
    rw [ih, ih', ← List.append_assoc]
    rfl

/-! ## What is read is not too long -/

/-- No numeral of the tree is too long. -/
def Node.Short (node : Node) : Prop :=
  ∀ token ∈ node.numerals, token.literal.length ≤ digitLimit

/-- No numeral of the trees is too long. -/
def Node.ShortAll (nodes : List Node) : Prop :=
  ∀ token ∈ numeralsAll nodes, token.literal.length ≤ digitLimit

theorem Node.shortAll_nil : ShortAll [] := by
  rintro _ ⟨⟩

theorem Node.ShortAll.cons {first : Node} {rest : List Node} (h : first.Short)
    (h' : ShortAll rest) : ShortAll (first :: rest) :=
  List.forall_mem_append.2 ⟨h, h'⟩

theorem Node.shortAll_of_forall : ∀ {nodes : List Node}, (∀ node ∈ nodes, node.Short) → ShortAll nodes
  | [], _ => shortAll_nil
  | _ :: _, h => .cons (List.forall_mem_cons.1 h).1 (shortAll_of_forall (List.forall_mem_cons.1 h).2)

namespace Parser

variable {α β : Type} {parts : Parts}

/-- Whatever the parser reads has the property. -/
def Produces (good : α → Prop) (parser : Parser α) : Prop :=
  ∀ state, parser.Gives state fun a _ => good a

/-- The parsers for the parts of a construct read trees without long numerals. -/
structure PartsShort (parts : Parts) : Prop where
  expression : ∀ threshold, Produces Node.Short (parts.expression threshold)
  block : Produces (fun found => Node.ShortAll found.2) parts.block

namespace Produces

variable {good : α → Prop} {good' : β → Prop} {parser : Parser α} {next : α → Parser β}

theorem pure {a : α} (h : good a) : Produces good (Pure.pure a) := fun _ => h

theorem bind (h : Produces good parser) (h' : ∀ a, good a → Produces good' (next a)) :
    Produces good' (parser >>= next) :=
  fun state => Gives.bind (h state) fun a t ha => h' a ha t

/-- A step that nothing is known about. -/
theorem step {next : α → Parser β} (h : ∀ a, Produces good' (next a)) :
    Produces good' (parser >>= next) :=
  bind (fun state => Gives.trivial parser state) fun a _ => h a

theorem ite {c : Prop} [Decidable c] {other : Parser α} (h : c → Produces good parser)
    (h' : ¬c → Produces good other) : Produces good (if c then parser else other) := by
  split
  · exact h ‹_›
  · exact h' ‹_›

theorem stop (reason : Stop) : Produces good (throw reason : Parser α) := by
  intro state
  cases reason <;> exact True.intro

/-! ### The constructs -/

theorem reference : Produces Node.Short reference :=
  step fun _ => pure (by rintro _ ⟨⟩)

theorem boolean : Produces Node.Short boolean :=
  step fun _ => pure (by rintro _ ⟨⟩)

theorem integer : Produces Node.Short integer := by
  refine step fun token => ?_
  split
  · exact stop _
  · exact ite (fun _ => stop _) fun hlength => ite (fun _ => stop _) fun _ =>
      pure (List.forall_mem_singleton.2 (Nat.not_lt.1 hlength))

theorem items {item : Parser α} (h : Produces good item) :
    ∀ rounds, Produces (fun list => ∀ a ∈ list, good a) (items item rounds)
  | 0 => stop _
  | rounds + 1 => bind h fun _ hfirst => step fun _ =>
    ite (fun _ => step fun _ => bind (items h rounds) fun _ hrest =>
      pure (List.forall_mem_cons.2 ⟨hfirst, hrest⟩))
      fun _ => pure (List.forall_mem_singleton.2 hfirst)

theorem parenthesized {item : Parser α} (h : Produces good item) :
    Produces (fun list => ∀ a ∈ list, good a) (parenthesized item) :=
  step fun _ => ite (fun _ => step fun _ => pure (by rintro _ ⟨⟩)) fun _ => step fun _ =>
    bind (items h _) fun _ hlist => step fun _ => pure hlist

theorem attempt (h : Produces good parser) :
    Produces (fun found => ∀ a ∈ found, good a) (attempt parser) :=
  fun state => meets_attempt.2 <| Meets.mono (h state)
    (fun _ _ hgood _ hmem => Option.some.inj hmem ▸ hgood) (fun _ _ _ => by rintro _ ⟨⟩) fun _ => id

variable (h : PartsShort parts)
include h

theorem argument : Produces Node.Short (argument parts) :=
  step fun _ => h.expression _

theorem unary : Produces Node.Short (unary parts) :=
  step fun _ => step fun _ => bind (h.expression _) fun _ hoperand => pure hoperand

theorem group : Produces Node.Short (group parts) :=
  step fun _ => bind (h.expression _) fun _ hinner => step fun _ => pure hinner

theorem conditional : Produces Node.Short (conditional parts) :=
  step fun _ => step fun _ => step fun _ => bind (h.expression _) fun _ hcondition =>
    step fun _ => step fun _ => bind h.block fun _ hbody => step fun _ => ite
      (fun _ => step fun _ => step fun _ => bind h.block fun _ helseBody => pure <|
        List.forall_mem_append.2 ⟨hcondition, List.forall_mem_append.2 ⟨hbody, helseBody⟩⟩)
      fun _ => pure (List.forall_mem_append.2 ⟨hcondition, hbody⟩)

theorem function : Produces Node.Short (function parts) :=
  step fun _ => step fun _ => step fun _ => step fun _ => bind h.block fun _ hbody => pure hbody

theorem opening : ∀ kind, Produces Node.Short (opening parts kind)
  | .reference => reference
  | .integer => integer
  | .boolean => boolean
  | .unary => unary h
  | .group => group h
  | .conditional => conditional h
  | .function => function h

theorem continuation {left : Node} (hleft : left.Short) :
    ∀ kind, Produces Node.Short (continuation parts kind left)
  | .binary => step fun _ => step fun _ => bind (h.expression _) fun _ hright =>
    pure (List.forall_mem_append.2 ⟨hleft, hright⟩)
  | .call => step fun _ =>
    bind (parenthesized (argument h)) fun _ harguments => pure <|
      List.forall_mem_append.2 ⟨hleft, Node.shortAll_of_forall harguments⟩

theorem climb (threshold : Precedence) : ∀ (rounds : Nat) {left : Node}, left.Short →
    Produces Node.Short (climb .standard parts threshold rounds left)
  | 0, _, _ => stop _
  | rounds + 1, _, hleft => by
    refine step fun token => ite (fun _ => ?_) fun _ => pure hleft
    split
    · exact pure hleft
    · exact step fun _ => bind (continuation h hleft _) fun _ => climb threshold rounds

theorem expressionWith (threshold : Precedence) :
    Produces Node.Short (expressionWith .standard parts threshold) := by
  refine step fun token => ?_
  split
  · exact stop _
  · exact bind (opening h _) fun _ hleft => step fun _ => climb h threshold _ hleft

theorem statement : Produces Node.Short (statement parts) := by
  refine step fun token => ?_
  split
  · exact step fun _ => step fun _ => step fun _ => step fun _ => step fun _ =>
      bind (h.expression _) fun _ hinner => step fun _ => pure hinner
  · exact step fun _ => step fun _ => bind (h.expression _) fun _ hinner => step fun _ => pure hinner
  · exact step fun _ => bind (h.expression _) fun _ hinner => step fun _ => pure hinner

theorem statementsWith (closing : List TokenKind) :
    ∀ rounds, Produces Node.ShortAll (statementsWith parts closing rounds)
  | 0 => stop _
  | rounds + 1 => by
    refine step fun token => ite (fun _ => pure Node.shortAll_nil) fun _ =>
      bind (attempt (statement h)) ?_
    rintro (_ | first) hfirst
    · exact step fun _ => step fun _ => ite (fun _ => pure Node.shortAll_nil) fun _ =>
        step fun _ => statementsWith closing rounds
    · exact step fun _ => bind (statementsWith closing rounds) fun _ hrest =>
        pure (.cons (hfirst first rfl) hrest)

theorem blockWith : Produces (fun found => Node.ShortAll found.2) (blockWith parts) :=
  step fun _ => step fun _ => step fun _ => bind (statementsWith h _ _) fun _ hbody => pure hbody

end Produces

theorem short_upTo : ∀ depth, PartsShort (.upTo .standard depth)
  | 0 => ⟨fun _ => .stop _, .stop _⟩
  | depth + 1 =>
    ⟨fun threshold => .expressionWith (short_upTo depth) threshold, .blockWith (short_upTo depth)⟩

/-- What is read as a program has no numeral that is too long. -/
theorem program_short : Produces Node.ShortAll (program .standard) :=
  .step fun _ => .step fun _ => .statementsWith (short_upTo _) _ _

end Parser

/-! ## Texts without diagnostics -/

/-- What is read without a diagnostic is derived, and no numeral in it is too long. -/
theorem derives_of_parseTokens {window : TokenStream} (hended : window.Ended) {trees : List Node}
    (h : parseTokens window = .ok ⟨trees, []⟩) :
    Derives Settled (.statements trees) window.ahead [] ∧ Node.ShortAll trees := by
  obtain ⟨after, hrun, hsilent⟩ := Parser.exists_run_of_silent h
  obtain ⟨hreads, hshort⟩ :=
    ((@Parser.program_sound { window } hended).and (Parser.program_short { window })).of_ok hrun
  refine ⟨hreads.2.resolve_left fun hlt => ?_, hshort⟩
  rw [hsilent] at hlt
  exact Nat.not_lt_zero _ hlt

theorem derives_of_parse {source : String} {trees : List Node} (h : parse source = .ok ⟨trees, []⟩) :
    Derives Settled (.statements trees) (Token.scan source.toList) [] ∧ Node.ShortAll trees :=
  derives_of_parseTokens (TokenStream.ended_ofSource source) h

/-- **A text that is parsed without a diagnostic has no numeral that is too long.** -/
theorem length_le_of_parse {source : String} {trees : List Node}
    (h : parse source = .ok ⟨trees, []⟩) {token : Token} (htoken : token ∈ Token.scan source.toList)
    (hkind : token.kind = .int) : token.literal.length ≤ digitLimit := by
  obtain ⟨hderives, hshort⟩ := derives_of_parse h
  have hnumerals := hderives.numerals
  rw [Token.numeralsOf_nil, List.append_nil] at hnumerals
  refine hshort token ?_
  rw [show Node.numeralsAll trees = _ from hnumerals.symm]
  exact List.mem_filter.2 ⟨htoken, by simp [hkind]⟩

/-- A text with tokens has statements, if it is parsed without a diagnostic. -/
theorem ne_nil_of_parse {source : String} {trees : List Node} (h : parse source = .ok ⟨trees, []⟩)
    (hne : Token.scan source.toList ≠ []) : trees ≠ [] := by
  rintro rfl
  have hderives := (derives_of_parse h).1
  generalize Token.scan source.toList = input at hne hderives
  cases hderives
  exact hne rfl

end MonkeyLang
