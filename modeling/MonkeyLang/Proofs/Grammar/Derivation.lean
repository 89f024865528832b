import MonkeyLang.Node
import MonkeyLang.Text.Decimal
import MonkeyLang.Token.Precedence

/-!
# The grammar of the language

Which lists of tokens are programs, said without a parser.  The grammar is a stratified one: an
expression is a `disjunction`, which is a chain of conjunctions with `||` between them, each of them
a chain of comparisons with `&&` between them, and so on down to the primary expressions.  All chains
lean to the left.

* `Stratum` lists the strata from the loosest to the tightest, with the operators of each.
* `Derives limit phrase input rest` says that the tokens of `input` up to `rest` are derived from a
  phrase.  A phrase comes with its tree, so a derivation says what the tokens mean, too; and since
  the tokens behind a phrase are there, a block may say that it is ended by the end of the text.
* The semicolon behind a statement may be left out, so one list of tokens can be derived in several
  ways: `a -b` is one statement or two.  The parameter `limit` limits the choice.  It is asked, for
  the expression of each statement, about the tokens at the start of the expression and those behind
  it.  With `Anywhere` this is the grammar; with `Longest` an expression has to extend as far as the
  grammar allows.
-/

set_option autoImplicit false

namespace MonkeyLang

/-! ## Strata -/

/-- The strata of an expression, from the loosest to the tightest. -/
inductive Stratum where
  | disjunction | conjunction | equality | order | sum | product
  /-- Expressions with signs in front of them. -/
  | signed
  /-- Expressions with lists of arguments behind them. -/
  | applied
  | primary
  deriving DecidableEq, Repr

namespace Stratum

/-- The operators between the operands of a chain. -/
def operators : Stratum → List TokenKind
  | disjunction => [.lor]
  | conjunction => [.land]
  | equality => [.eq, .neq]
  | order => [.lt, .lte, .gt, .gte]
  | sum => [.plus, .minus]
  | product => [.asterisk, .slash]
  | signed | applied | primary => []

/-- The next stratum, which the operands of a chain belong to. -/
def tighter : Stratum → Stratum
  | disjunction => conjunction
  | conjunction => equality
  | equality => order
  | order => sum
  | sum => product
  | product => signed
  | signed => applied
  | applied | primary => primary

/-- The number of a stratum.  The strata with operators have the numbers of their precedences. -/
def level : Stratum → Nat
  | disjunction => 2 | conjunction => 3 | equality => 4 | order => 5
  | sum => 6 | product => 7 | signed => 8 | applied => 9 | primary => 10

theorem level_le_tighter (stratum : Stratum) : stratum.level ≤ stratum.tighter.level := by
  cases stratum <;> decide

theorem level_of_mem {stratum : Stratum} {kind : TokenKind} (h : kind ∈ stratum.operators) :
    kind.precedence.level = stratum.level ∧ stratum.tighter.level = stratum.level + 1 ∧
      stratum.level < 8 := by
  revert h
  cases stratum <;> cases kind <;> decide

end Stratum

/-! ## Names and the beginnings of statements -/

/-- One or more names with commas between them. -/
inductive NameList : List Token → List Identifier → List Token → Prop
  | last {name : Token} {rest : List Token} (hname : name.kind = .ident) :
      NameList (name :: rest) [⟨name, name.literal⟩] rest
  | more {name comma : Token} {input rest : List Token} {names : List Identifier}
      (hname : name.kind = .ident) (hcomma : comma.kind = .comma)
      (h : NameList input names rest) :
      NameList (name :: comma :: input) (⟨name, name.literal⟩ :: names) rest

/-- The parameters of a function literal, from behind the opening parenthesis. -/
inductive Parameters : List Token → List Identifier → List Token → Prop
  | none {closes : Token} {rest : List Token} (hcloses : closes.kind = .rparen) :
      Parameters (closes :: rest) [] rest
  | some {closes : Token} {input rest : List Token} {names : List Identifier}
      (h : NameList input names (closes :: rest)) (hcloses : closes.kind = .rparen) :
      Parameters input names rest

/-- What a statement has in front of its expression, and what it makes of the expression's tree. -/
inductive Lead : List Token → List Token → (Node → Node) → Prop
  | binding {word name sign : Token} {rest : List Token} (hword : word.kind = .letWord)
      (hname : name.kind = .ident) (hsign : sign.kind = .assign) :
      Lead (word :: name :: sign :: rest) rest (.binding word ⟨name, name.literal⟩)
  | result {word : Token} {rest : List Token} (hword : word.kind = .returnWord) :
      Lead (word :: rest) rest (.result word)
  | expression {first : Token} {rest : List Token} :
      Lead (first :: rest) (first :: rest) (.expression first)

/-! ## Derivations -/

/-- What can be derived, with its tree. -/
inductive Phrase where
  | expression (stratum : Stratum) (tree : Node)
  /-- The arguments of a call, from behind the opening parenthesis. -/
  | arguments (trees : List Node)
  /-- One or more expressions with commas between them. -/
  | list (trees : List Node)
  | block (brace : Token) (body : List Node)
  /-- The expression of a statement, with the semicolon behind it if there is one. -/
  | closed (tree : Node)
  | statement (tree : Node)
  | statements (trees : List Node)

/-- The tokens of the first list up to the second are derived from a phrase.  The expressions of
statements stand where they are admitted. -/
inductive Derives (limit : List Token → List Token → Prop) :
    Phrase → List Token → List Token → Prop
  -- primary expressions
  | reference {name : Token} {rest : List Token} (hname : name.kind = .ident) :
      Derives limit (.expression .primary (.reference ⟨name, name.literal⟩)) (name :: rest) rest
  | integer {token : Token} {value : Nat} {rest : List Token} (htoken : token.kind = .int)
      (hvalue : Text.numeralValue? token.literal.toList = some value)
      (hrange : value ≤ 0x7fffffffffffffff) :
      Derives limit (.expression .primary (.integer token value)) (token :: rest) rest
  | trueWord {word : Token} {rest : List Token} (hword : word.kind = .trueWord) :
      Derives limit (.expression .primary (.boolean word true)) (word :: rest) rest
  | falseWord {word : Token} {rest : List Token} (hword : word.kind = .falseWord) :
      Derives limit (.expression .primary (.boolean word false)) (word :: rest) rest
  | group {opens closes : Token} {tree : Node} {input rest : List Token}
      (hopens : opens.kind = .lparen)
      (h : Derives limit (.expression .disjunction tree) input (closes :: rest))
      (hcloses : closes.kind = .rparen) :
      Derives limit (.expression .primary tree) (opens :: input) rest
  | ifThen {word opens closes brace : Token} {condition : Node} {body : List Node}
      {input middle rest : List Token} (hword : word.kind = .ifWord)
      (hopens : opens.kind = .lparen)
      (hcondition : Derives limit (.expression .disjunction condition) input (closes :: middle))
      (hcloses : closes.kind = .rparen) (hbody : Derives limit (.block brace body) middle rest) :
      Derives limit (.expression .primary (.ifThen word condition brace body))
        (word :: opens :: input) rest
  | ifThenElse {word opens closes brace elseWord elseBrace : Token} {condition : Node}
      {body elseBody : List Node} {input middle other rest : List Token}
      (hword : word.kind = .ifWord) (hopens : opens.kind = .lparen)
      (hcondition : Derives limit (.expression .disjunction condition) input (closes :: middle))
      (hcloses : closes.kind = .rparen)
      (hbody : Derives limit (.block brace body) middle (elseWord :: other))
      (helse : elseWord.kind = .elseWord)
      (helseBody : Derives limit (.block elseBrace elseBody) other rest) :
      Derives limit
        (.expression .primary (.ifThenElse word condition brace body elseBrace elseBody))
        (word :: opens :: input) rest
  | function {word opens brace : Token} {names : List Identifier} {body : List Node}
      {input middle rest : List Token} (hword : word.kind = .function)
      (hopens : opens.kind = .lparen) (hnames : Parameters input names middle)
      (hbody : Derives limit (.block brace body) middle rest) :
      Derives limit (.expression .primary (.function word names brace body))
        (word :: opens :: input) rest
  -- calls, signs, chains
  | call {opens : Token} {callee : Node} {arguments : List Node} {input middle rest : List Token}
      (hcallee : Derives limit (.expression .applied callee) input (opens :: middle))
      (hopens : opens.kind = .lparen)
      (harguments : Derives limit (.arguments arguments) middle rest) :
      Derives limit (.expression .applied (.call opens callee arguments)) input rest
  | unary {sign : Token} {operand : Node} {input rest : List Token}
      (hsign : sign.kind = .bang ∨ sign.kind = .minus)
      (h : Derives limit (.expression .signed operand) input rest) :
      Derives limit (.expression .signed (.unary sign sign.literal operand)) (sign :: input) rest
  | binary {stratum : Stratum} {operator : Token} {left right : Node}
      {input middle rest : List Token}
      (hleft : Derives limit (.expression stratum left) input (operator :: middle))
      (hoperator : operator.kind ∈ stratum.operators)
      (hright : Derives limit (.expression stratum.tighter right) middle rest) :
      Derives limit (.expression stratum (.binary operator left operator.literal right)) input rest
  | ofTighter {stratum : Stratum} {tree : Node} {input rest : List Token}
      (h : Derives limit (.expression stratum.tighter tree) input rest) :
      Derives limit (.expression stratum tree) input rest
  -- lists of expressions
  | noArguments {closes : Token} {rest : List Token} (hcloses : closes.kind = .rparen) :
      Derives limit (.arguments []) (closes :: rest) rest
  | someArguments {closes : Token} {trees : List Node} {input rest : List Token}
      (h : Derives limit (.list trees) input (closes :: rest)) (hcloses : closes.kind = .rparen) :
      Derives limit (.arguments trees) input rest
  | last {tree : Node} {input rest : List Token}
      (h : Derives limit (.expression .disjunction tree) input rest) :
      Derives limit (.list [tree]) input rest
  | more {comma : Token} {tree : Node} {trees : List Node} {input middle rest : List Token}
      (h : Derives limit (.expression .disjunction tree) input (comma :: middle))
      (hcomma : comma.kind = .comma) (hmore : Derives limit (.list trees) middle rest) :
      Derives limit (.list (tree :: trees)) input rest
  -- blocks
  | block {brace closes : Token} {body : List Node} {input rest : List Token}
      (hbrace : brace.kind = .lbrace)
      (hbody : Derives limit (.statements body) input (closes :: rest))
      (hcloses : closes.kind = .rbrace) : Derives limit (.block brace body) (brace :: input) rest
  /-- The end of the text ends a block. -/
  | endedBlock {brace : Token} {body : List Node} {input : List Token}
      (hbrace : brace.kind = .lbrace) (hbody : Derives limit (.statements body) input []) :
      Derives limit (.block brace body) (brace :: input) []
  -- statements
  | semicolon {mark : Token} {tree : Node} {input rest : List Token}
      (h : Derives limit (.expression .disjunction tree) input (mark :: rest))
      (hlimit : limit input (mark :: rest)) (hmark : mark.kind = .semicolon) :
      Derives limit (.closed tree) input rest
  | bare {tree : Node} {input rest : List Token}
      (h : Derives limit (.expression .disjunction tree) input rest)
      (hlimit : limit input rest) : Derives limit (.closed tree) input rest
  | statement {make : Node → Node} {tree : Node} {input middle rest : List Token}
      (hlead : Lead input middle make) (h : Derives limit (.closed tree) middle rest) :
      Derives limit (.statement (make tree)) input rest
  | noStatements {rest : List Token} : Derives limit (.statements []) rest rest
  | someStatements {first : Node} {others : List Node} {input middle rest : List Token}
      (hfirst : Derives limit (.statement first) input middle)
      (hothers : Derives limit (.statements others) middle rest) :
      Derives limit (.statements (first :: others)) input rest

/-- No limit on where an expression ends. -/
def Anywhere (_ _ : List Token) : Prop := True

/-- No expression at the start of the tokens is longer than the one that these are behind. -/
def Longest (input rest : List Token) : Prop :=
  ∀ tree rest', Derives Anywhere (.expression .disjunction tree) input rest' →
    rest.length ≤ rest'.length

/-! ## Where derivations begin and end -/

theorem NameList.suffix {input rest : List Token} {names : List Identifier}
    (h : NameList input names rest) : rest <:+ input := by
  induction h with
  | last => exact List.suffix_cons _ _
  | more _ _ _ ih => exact (ih.trans (List.suffix_cons _ _)).trans (List.suffix_cons _ _)

theorem Parameters.suffix {input rest : List Token} {names : List Identifier}
    (h : Parameters input names rest) : rest <:+ input := by
  cases h with
  | none => exact List.suffix_cons _ _
  | some h => exact (List.suffix_cons _ _).trans h.suffix

theorem Lead.suffix {input rest : List Token} {make : Node → Node} (h : Lead input rest make) :
    rest <:+ input := by
  cases h with
  | binding => exact ⟨[_, _, _], rfl⟩
  | result => exact List.suffix_cons _ _
  | expression => exact List.suffix_refl _

namespace Derives

variable {limit : List Token → List Token → Prop} {phrase : Phrase}
  {input rest : List Token}

/-- No token is taken from elsewhere: what is behind a phrase is the end of what it starts in. -/
theorem suffix (h : Derives limit phrase input rest) : rest <:+ input := by
  induction h with
  | reference | integer | trueWord | falseWord | noArguments => exact List.suffix_cons _ _
  | group _ _ _ ih | block _ _ _ ih =>
    exact ((List.suffix_cons _ _).trans ih).trans (List.suffix_cons _ _)
  | ifThen _ _ _ _ _ ih ih' =>
    exact ((ih'.trans (List.suffix_cons _ _)).trans ih).trans ⟨[_, _], rfl⟩
  | ifThenElse _ _ _ _ _ _ _ ih ih' ih'' =>
    exact ((((ih''.trans (List.suffix_cons _ _)).trans ih').trans (List.suffix_cons _ _)).trans
      ih).trans ⟨[_, _], rfl⟩
  | function _ _ hnames _ ih => exact (ih.trans hnames.suffix).trans ⟨[_, _], rfl⟩
  | call _ _ _ ih ih' | binary _ _ _ ih ih' | more _ _ _ ih ih' =>
    exact (ih'.trans (List.suffix_cons _ _)).trans ih
  | unary _ _ ih | endedBlock _ _ ih => exact ih.trans (List.suffix_cons _ _)
  | ofTighter _ ih | last _ ih | bare _ _ ih => exact ih
  | someArguments _ _ ih | semicolon _ _ _ ih => exact (List.suffix_cons _ _).trans ih
  | statement hlead _ ih => exact ih.trans hlead.suffix
  | noStatements => exact List.suffix_refl _
  | someStatements _ _ ih ih' => exact ih'.trans ih

/-- An expression of some stratum is one of every looser stratum. -/
theorem loosen {stratum stratum' : Stratum} {tree : Node}
    (h : Derives limit (.expression stratum tree) input rest)
    (hle : stratum'.level ≤ stratum.level) :
    Derives limit (.expression stratum' tree) input rest := by
  by_cases heq : stratum' = stratum
  · exact heq ▸ h
  · have hlt : stratum'.tighter.level ≤ stratum.level ∧
        stratum.level - stratum'.tighter.level < stratum.level - stratum'.level := by
      revert heq hle
      cases stratum <;> cases stratum' <;> decide
    exact .ofTighter (loosen h hlt.1)
termination_by stratum.level - stratum'.level
decreasing_by exact hlt.2

end Derives

/-- The kinds of token that an expression starts with. -/
def TokenKind.startsExpression : TokenKind → Bool
  | ident | int | trueWord | falseWord | lparen | ifWord | function | bang | minus => true
  | _ => false

/-- How the tokens of a phrase start. -/
def Phrase.Starts : Phrase → List Token → Prop
  | expression .., input | list _, input | closed _, input => ∃ first others,
      input = first :: others ∧ first.kind.startsExpression = true
  | statement _, input => ∃ first others, input = first :: others ∧
      (first.kind.startsExpression = true ∨ first.kind = .letWord ∨ first.kind = .returnWord)
  | block brace _, input => ∃ others, input = brace :: others ∧ brace.kind = .lbrace
  | _, _ => True

theorem Derives.starts {limit : List Token → List Token → Prop} {phrase : Phrase}
    {input rest : List Token} (h : Derives limit phrase input rest) : phrase.Starts input := by
  induction h with
  | reference hkind | integer hkind | trueWord hkind | falseWord hkind | group hkind
  | ifThen hkind | ifThenElse hkind | function hkind => exact ⟨_, _, rfl, by rw [hkind]; rfl⟩
  | unary hkind => exact ⟨_, _, rfl, by rcases hkind with hkind | hkind <;> rw [hkind] <;> rfl⟩
  | call _ _ _ ih | binary _ _ _ ih | ofTighter _ ih | last _ ih | more _ _ _ ih
  | semicolon _ _ _ ih | bare _ _ ih => exact ih
  | statement hlead _ ih =>
    cases hlead with
    | binding hword => exact ⟨_, _, rfl, .inr (.inl hword)⟩
    | result hword => exact ⟨_, _, rfl, .inr (.inr hword)⟩
    | expression =>
      obtain ⟨first, others, heq, hfirst⟩ := ih
      exact ⟨first, others, heq, .inl hfirst⟩
  | block hbrace | endedBlock hbrace => exact ⟨_, rfl, hbrace⟩
  | _ => exact True.intro

/-! ## The ends of statements -/

/-- What is behind the last statement of a list: the end of a block, or of the text. -/
def EndsList (rest : List Token) : Prop :=
  ∀ token ∈ rest.head?, token.kind = .rbrace

/-- The token behind a statement is neither the word `else` nor a semicolon. -/
def Closes (rest : List Token) : Prop :=
  ∀ token ∈ rest.head?, token.kind ≠ .elseWord ∧ token.kind ≠ .semicolon

/-- What holds of the first of some tokens. -/
theorem head?_cons {p : Token → Prop} {first : Token} {rest : List Token} (h : p first) :
    ∀ token ∈ (first :: rest).head?, p token := by
  rintro _ ⟨⟩
  exact h

/-- Behind a statement stands the next one, or the end of the list. -/
theorem Derives.closes {limit : List Token → List Token → Prop} {others : List Node}
    {middle rest : List Token} (h : Derives limit (.statements others) middle rest)
    (hrest : EndsList rest) : Closes middle := by
  cases h with
  | noStatements =>
    intro token htoken
    rw [hrest token htoken]
    decide
  | someStatements hfirst _ =>
    obtain ⟨token, tokens, rfl, htoken⟩ := hfirst.starts
    refine head?_cons ⟨?_, ?_⟩ <;>
    · intro hkind
      rw [hkind] at htoken
      revert htoken
      decide

/-- What stands behind a phrase in a program, as far as it matters to the statements in it. -/
def Phrase.Complete : Phrase → List Token → Prop
  | closed _, rest | statement _, rest => Closes rest
  | statements _, rest => EndsList rest
  | _, _ => True

/-- A derivation is one for another limit, too, if the other one admits the same expressions.  It is
enough to look at the expressions in the whole text, and those behind which no `else` stands. -/
theorem Derives.relimit {limit limit' : List Token → List Token → Prop} {whole : List Token}
    (hlimit : ∀ tree input rest, Derives limit (.expression .disjunction tree) input rest →
      input <:+ whole → (∀ token ∈ rest.head?, token.kind ≠ .elseWord) → limit input rest →
      limit' input rest) {phrase : Phrase} {input rest : List Token}
    (h : Derives limit phrase input rest) :
    input <:+ whole → phrase.Complete rest → Derives limit' phrase input rest := by
  have tail {first : Token} {others : List Token} (h : first :: others <:+ whole) :
      others <:+ whole := (List.suffix_cons _ _).trans h
  induction h with
  | reference hname => exact fun _ _ => .reference hname
  | integer htoken hvalue hrange => exact fun _ _ => .integer htoken hvalue hrange
  | trueWord hword => exact fun _ _ => .trueWord hword
  | falseWord hword => exact fun _ _ => .falseWord hword
  | group hopens _ hcloses ih =>
    exact fun hinput _ => .group hopens (ih (tail hinput) True.intro) hcloses
  | ifThen hword hopens hcondition hcloses _ ih ih' =>
    intro hinput _
    have hcondition' := tail (tail hinput)
    exact .ifThen hword hopens (ih hcondition' True.intro) hcloses
      (ih' (tail (hcondition.suffix.trans hcondition')) True.intro)
  | ifThenElse hword hopens hcondition hcloses hbody helse _ ih ih' ih'' =>
    intro hinput _
    have hcondition' := tail (tail hinput)
    have hbody' := tail (hcondition.suffix.trans hcondition')
    exact .ifThenElse hword hopens (ih hcondition' True.intro) hcloses (ih' hbody' True.intro) helse
      (ih'' (tail (hbody.suffix.trans hbody')) True.intro)
  | function hword hopens hnames _ ih =>
    intro hinput _
    exact .function hword hopens hnames
      (ih (hnames.suffix.trans (tail (tail hinput))) True.intro)
  | call hcallee hopens _ ih ih' =>
    intro hinput _
    exact .call (ih hinput True.intro) hopens
      (ih' (tail (hcallee.suffix.trans hinput)) True.intro)
  | unary hsign _ ih => exact fun hinput _ => .unary hsign (ih (tail hinput) True.intro)
  | binary hleft hoperator _ ih ih' =>
    intro hinput _
    exact .binary (ih hinput True.intro) hoperator
      (ih' (tail (hleft.suffix.trans hinput)) True.intro)
  | ofTighter _ ih => exact fun hinput _ => .ofTighter (ih hinput True.intro)
  | noArguments hcloses => exact fun _ _ => .noArguments hcloses
  | someArguments _ hcloses ih =>
    exact fun hinput _ => .someArguments (ih hinput True.intro) hcloses
  | last _ ih => exact fun hinput _ => .last (ih hinput True.intro)
  | more hfirst hcomma _ ih ih' =>
    intro hinput _
    exact .more (ih hinput True.intro) hcomma (ih' (tail (hfirst.suffix.trans hinput)) True.intro)
  | block hbrace _ hcloses ih =>
    exact fun hinput _ => .block hbrace (ih (tail hinput) (head?_cons hcloses)) hcloses
  | endedBlock hbrace _ ih =>
    exact fun hinput _ => .endedBlock hbrace (ih (tail hinput) fun token htoken => by cases htoken)
  | semicolon h hadmits hmark ih =>
    intro hinput _
    refine .semicolon (ih hinput True.intro) (hlimit _ _ _ h hinput (head?_cons ?_) hadmits) hmark
    rw [hmark]
    decide
  | bare h hadmits ih =>
    intro hinput hcloses
    exact .bare (ih hinput True.intro)
      (hlimit _ _ _ h hinput (fun token htoken => (hcloses token htoken).1) hadmits)
  | statement hlead _ ih =>
    exact fun hinput hcloses => .statement hlead (ih (hlead.suffix.trans hinput) hcloses)
  | noStatements => exact fun _ _ => .noStatements
  | someStatements hfirst hothers ih ih' =>
    intro hinput hrest
    exact .someStatements (ih hinput (hothers.closes hrest))
      (ih' (hfirst.suffix.trans hinput) hrest)

end MonkeyLang
