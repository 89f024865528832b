import MonkeyLang.Proofs.Grammar.Greedy
import MonkeyLang.Proofs.Parsing.Termination
import MonkeyLang.Proofs.Rendering.Validity
import MonkeyLang.Proofs.Scanning.Pieces

/-!
# Canonical text is derived from the grammar

The canonical text of a valid tree is scanned as tokens that are derived from the grammar, with a tree
that is the given one but for its tokens.  This is shown piece by piece, along the tree: each text
stands somewhere in a longer one, and behind it stands something that is `Apart` from it.

* `Written` says of the tokens of such a piece that they are derived from a phrase, and legible.
* `Node.Readable` is the statement about an expression.  The canonical text of every expression is one
  with nothing but calls outside of parentheses, so it is derived in the stratum of calls.
* An expression standing as a statement is followed by a semicolon or by the end of its list, so
  nothing continues it.
-/

set_option autoImplicit false

namespace MonkeyLang

open Token

/-! ## Written phrases -/

/-- The tokens of the first list up to the second are legible. -/
def Legibly (input rest : List Token) : Prop :=
  (∀ token ∈ rest, token.Legible) → ∀ token ∈ input, token.Legible

namespace Legibly

variable {first : Token} {input middle rest : List Token}

theorem refl : Legibly rest rest := id

theorem trans (h : Legibly input middle) (h' : Legibly middle rest) : Legibly input rest :=
  fun hrest => h (h' hrest)

/-- A token that is no integer is legible. -/
theorem cons (hkind : first.kind ≠ .int) (h : Legibly input rest) : Legibly (first :: input) rest :=
  fun hrest => List.forall_mem_cons.2 ⟨fun hint => absurd hint hkind, h hrest⟩

end Legibly

/-- The tokens of the first list up to the second are derived from a phrase, and legible. -/
structure Written (phrase : Phrase) (input rest : List Token) : Prop where
  derives : Derives Settled phrase input rest
  legible : Legibly input rest

/-! ## Words, names and numerals -/

/-- A reserved word in front of something that is no part of it. -/
theorem scanFrom_reserved (word : String) (kind : TokenKind) (hword : word ∈ reservedWords)
    (hkind : TokenKind.ofWord word = kind) {rest : List Char} (hrest : Apart rest)
    (place : Position) :
    scanFrom 0 place (word.toList ++ rest) =
      ⟨kind, word, place⟩ :: scanFrom 0 (place.afterAll word.toList) rest := by
  have hletters : ∀ word ∈ reservedWords,
      word.toList ≠ [] ∧ word.toList.all isLetter = true := by decide
  obtain ⟨hne, hletters⟩ := hletters word hword
  rw [scanFrom_word word hne (List.all_eq_true.1 hletters) hrest place, hkind]

/-- A valid name in front of something that is no part of it. -/
theorem Identifier.Valid.scanFrom {identifier : Identifier} (h : identifier.Valid)
    {rest : List Char} (hrest : Apart rest) (place : Position) :
    Token.scanFrom 0 place (identifier.name.toList ++ rest) =
      ⟨.ident, identifier.name, place⟩ ::
        Token.scanFrom 0 (place.afterAll identifier.name.toList) rest := by
  rw [scanFrom_word identifier.name h.nonempty h.letters hrest,
    TokenKind.ofWord_eq_ident_iff.2 h.unreserved]

theorem isDigit_of_mem_toDigits {n : Nat} {c : Char} (h : c ∈ Nat.toDigits 10 n) :
    isDigit c = true := by
  have hdigit := Nat.isDigit_of_mem_toDigits (by decide) (by decide) h
  simp only [Char.isDigit, Bool.and_eq_true, decide_eq_true_eq] at hdigit
  simp only [isDigit, Bool.and_eq_true, decide_eq_true_eq]
  exact hdigit

/-- The numeral of a number is a token with that number for its value. -/
theorem numeralValue?_repr (n : Nat) : Text.numeralValue? n.repr.toList = some n := by
  rw [Nat.toList_repr, Text.numeralValue?_of_digits Nat.toDigits_ne_nil fun _ => isDigit_of_mem_toDigits,
    Nat.ofDigitChars_ten_toDigits]

/-! ## Operators -/

theorem ofPair?_bang {d : Char} (h : d ≠ '=') : TokenKind.ofPair? '!' d = none := by
  unfold TokenKind.ofPair?
  split <;> first | rfl | contradiction

/-- A sign in front of something that is no part of it. -/
theorem scanFrom_unary {operator : String} (h : operator ∈ unaryOperators) :
    ∃ kind : TokenKind, (kind = .bang ∨ kind = .minus) ∧
      ∀ {rest : List Char}, rest.head? ≠ some '=' → ∀ place, ∃ place',
        scanFrom 0 place (operator.toList ++ rest) =
          ⟨kind, operator, place⟩ :: scanFrom 0 place' rest := by
  simp only [unaryOperators, List.mem_cons, List.not_mem_nil, or_false] at h
  rcases h with rfl | rfl
  · refine ⟨.bang, .inl rfl, fun {rest} hrest place => ⟨_, scanFrom_single rfl ?_ place⟩⟩
    cases rest with
    | nil => rfl
    | cons c others => exact ofPair?_bang fun heq => hrest (congrArg some heq)
  · exact ⟨.minus, .inr rfl, fun _ place => ⟨_, scanFrom_lone rfl (fun _ => rfl) _ place⟩⟩

/-- An operator in front of a space. -/
theorem scanFrom_binary {operator : String} (h : operator ∈ binaryOperators) :
    ∃ (kind : TokenKind) (stratum : Stratum), kind ∈ stratum.operators ∧
      ∀ rest place, ∃ place', scanFrom 0 place (operator.toList ++ ' ' :: rest) =
        ⟨kind, operator, place⟩ :: scanFrom 0 place' (' ' :: rest) := by
  simp only [binaryOperators, List.mem_cons, List.not_mem_nil, or_false] at h
  rcases h with rfl | rfl | rfl | rfl | rfl | rfl | rfl | rfl | rfl | rfl | rfl | rfl
  · exact ⟨.lor, .disjunction, by decide, fun _ place => ⟨_, scanFrom_pair rfl _ place⟩⟩
  · exact ⟨.land, .conjunction, by decide, fun _ place => ⟨_, scanFrom_pair rfl _ place⟩⟩
  · exact ⟨.eq, .equality, by decide, fun _ place => ⟨_, scanFrom_pair rfl _ place⟩⟩
  · exact ⟨.neq, .equality, by decide, fun _ place => ⟨_, scanFrom_pair rfl _ place⟩⟩
  · exact ⟨.lt, .order, by decide, fun _ place => ⟨_, scanFrom_single rfl rfl place⟩⟩
  · exact ⟨.lte, .order, by decide, fun _ place => ⟨_, scanFrom_pair rfl _ place⟩⟩
  · exact ⟨.gt, .order, by decide, fun _ place => ⟨_, scanFrom_single rfl rfl place⟩⟩
  · exact ⟨.gte, .order, by decide, fun _ place => ⟨_, scanFrom_pair rfl _ place⟩⟩
  · exact ⟨.plus, .sum, by decide, fun _ place => ⟨_, scanFrom_single rfl rfl place⟩⟩
  · exact ⟨.minus, .sum, by decide, fun _ place => ⟨_, scanFrom_single rfl rfl place⟩⟩
  · exact ⟨.asterisk, .product, by decide, fun _ place => ⟨_, scanFrom_single rfl rfl place⟩⟩
  · exact ⟨.slash, .product, by decide, fun _ place => ⟨_, scanFrom_single rfl rfl place⟩⟩

/-! ## Expressions -/

/-- Wherever the canonical text of the expression stands, it is read as the expression. -/
def Node.Readable (node : Node) : Prop :=
  ∀ behind, Apart behind → ∀ place, ∃ tree place', tree.skeleton = node.skeleton ∧
    Written (.expression .applied tree) (scanFrom 0 place (node.render.toList ++ behind))
      (scanFrom 0 place' behind)

namespace Node

variable {token : Token} {operand left right callee condition : Node} {operator : String}

theorem readable_reference {identifier : Identifier} (h : identifier.Valid) :
    (reference identifier).Readable := by
  intro behind hbehind place
  rw [render, h.scanFrom hbehind]
  exact ⟨.reference ⟨⟨.ident, identifier.name, place⟩, identifier.name⟩, _, rfl,
    .ofTighter (.reference rfl), .cons nofun .refl⟩

theorem readable_integer {value : Int} (hnonneg : 0 ≤ value)
    (hrange : value ≤ Parser.largestInteger) : (integer token value).Readable := by
  obtain ⟨n, rfl⟩ := Int.eq_ofNat_of_zero_le hnonneg
  have hn : n ≤ Parser.largestInteger := Int.ofNat_le.1 hrange
  intro behind hbehind place
  have hdigits : ∀ c ∈ n.repr.toList, isDigit c = true := fun c hc =>
    isDigit_of_mem_toDigits (Nat.toList_repr ▸ hc)
  have hne : n.repr.toList ≠ [] := by
    rw [Nat.toList_repr]
    exact Nat.toDigits_ne_nil
  have hlength : n.repr.length ≤ 19 :=
    (Nat.length_repr_le_iff (by decide)).2 (Nat.lt_of_le_of_lt hn (by decide))
  rw [show (integer token n).render = n.repr from rfl, scanFrom_numeral n.repr hne hdigits hbehind]
  exact ⟨.integer ⟨.int, n.repr, place⟩ n, _, rfl,
    .ofTighter (.integer rfl (numeralValue?_repr n) hn), fun hrest => List.forall_mem_cons.2
      ⟨fun _ => ⟨hne, hdigits, Nat.le_trans hlength (by decide)⟩, hrest⟩⟩

theorem readable_boolean {value : Bool} : (boolean token value).Readable := by
  intro behind hbehind place
  cases value with
  | true =>
    rw [render, if_pos rfl, scanFrom_reserved "true" .trueWord (by decide) rfl hbehind]
    exact ⟨.boolean ⟨.trueWord, "true", place⟩ true, _, rfl, .ofTighter (.trueWord rfl),
      .cons nofun .refl⟩
  | false =>
    rw [render, if_neg (by decide), scanFrom_reserved "false" .falseWord (by decide) rfl hbehind]
    exact ⟨.boolean ⟨.falseWord, "false", place⟩ false, _, rfl, .ofTighter (.falseWord rfl),
      .cons nofun .refl⟩

/-- Any expression may stand in parentheses. -/
theorem written_group {stratum : Stratum} {tree : Node} {input rest : List Token}
    {opens closes : Token} (h : Written (.expression stratum tree) input (closes :: rest))
    (hopens : opens.kind = .lparen) (hcloses : closes.kind = .rparen) :
    Written (.expression .applied tree) (opens :: input) rest := by
  have hle : Stratum.disjunction.level ≤ stratum.level := by cases stratum <;> decide
  refine ⟨.ofTighter (.group hopens (h.derives.loosen hle) hcloses),
    .cons (by simp [hopens]) (h.legible.trans (.cons (by simp [hcloses]) .refl))⟩

theorem readable_unary (hoperator : operator ∈ unaryOperators)
    (hhead : ∀ rest, (operand.render.toList ++ rest).head? ≠ some '=') (h : operand.Readable) :
    (unary token operator operand).Readable := by
  intro behind hbehind place
  obtain ⟨kind, hsign, hscan⟩ := scanFrom_unary hoperator
  have htext : (unary token operator operand).render.toList ++ behind =
      '(' :: (operator.toList ++ (operand.render.toList ++ ')' :: behind)) := by
    simp [render]
  obtain ⟨place₁, hoperator⟩ := hscan (hhead (')' :: behind)) (place.after '(')
  obtain ⟨tree, place₂, hskeleton, h⟩ := h (')' :: behind) (apart_cons _ (by decide)) place₁
  rw [scanFrom_lone (c := ')') rfl fun _ => rfl] at h
  rw [htext, scanFrom_lone (c := '(') rfl fun _ => rfl, hoperator]
  have hkind : kind ≠ .int := by rcases hsign with rfl | rfl <;> decide
  have hunary : Written (.expression .signed (unary ⟨kind, operator, place.after '('⟩ operator tree))
      _ _ :=
    ⟨.unary hsign (h.derives.loosen (by decide)), .cons hkind h.legible⟩
  refine ⟨_, _, ?_, written_group hunary rfl rfl⟩
  exact congrArg (unary default operator) hskeleton

theorem readable_binary (hoperator : operator ∈ binaryOperators) (hleft : left.Readable)
    (hright : right.Readable) : (binary token left operator right).Readable := by
  intro behind hbehind place
  obtain ⟨kind, stratum, hmem, hscan⟩ := scanFrom_binary hoperator
  obtain ⟨-, htighter, hlevel⟩ := Stratum.level_of_mem hmem
  have htext : (binary token left operator right).render.toList ++ behind =
      '(' :: (left.render.toList ++ ' ' :: (operator.toList ++ ' ' ::
        (right.render.toList ++ ')' :: behind))) := by
    simp [render]
  obtain ⟨tree, place₁, hskeleton, hleft⟩ := hleft (' ' :: (operator.toList ++ ' ' ::
    (right.render.toList ++ ')' :: behind))) (apart_cons _ (by decide)) (place.after '(')
  obtain ⟨place₂, hoperator⟩ := hscan (right.render.toList ++ ')' :: behind) (place₁.after ' ')
  obtain ⟨tree', place₃, hskeleton', hright⟩ :=
    hright (')' :: behind) (apart_cons _ (by decide)) (place₂.after ' ')
  rw [scanFrom_space, hoperator, scanFrom_space] at hleft
  rw [scanFrom_lone (c := ')') rfl fun _ => rfl] at hright
  rw [htext, scanFrom_lone (c := '(') rfl fun _ => rfl]
  have hkind : kind ≠ .int := by
    rintro rfl
    revert hmem
    cases stratum <;> decide
  have happlied : Stratum.applied.level = 9 := rfl
  have hbinary : Written
      (.expression stratum (binary ⟨kind, operator, place₁.after ' '⟩ tree operator tree')) _ _ :=
    ⟨.binary (hleft.derives.loosen (by omega)) hmem (hright.derives.loosen (by omega)),
      hleft.legible.trans (.cons hkind hright.legible)⟩
  refine ⟨_, _, ?_, written_group hbinary rfl rfl⟩
  rw [skeleton, mapTokens, ← skeleton, ← skeleton, hskeleton, hskeleton']
  rfl

/-! ## Blocks -/

/-- Wherever the canonical text of the statements stands in front of the end of a list, it is read as
the statements. -/
def ReadableStatements (statements : List Node) : Prop :=
  ∀ behind, Apart behind → (∀ place, EndsList (scanFrom 0 place behind)) → ∀ place,
    ∃ trees place', skeletons trees = skeletons statements ∧
      Written (.statements trees) (scanFrom 0 place ((renderStatements statements).toList ++ behind))
        (scanFrom 0 place' behind)

/-- An empty block has a space for its statements, too. -/
theorem scanFrom_braced (body : String) (behind : List Char) (place : Position) :
    ∃ place', scanFrom 0 place ((braced body).toList ++ behind) =
      ⟨.lbrace, "\x7b", place⟩ :: scanFrom 0 place' (body.toList ++ ' ' :: '}' :: behind) := by
  by_cases hempty : body = ""
  · rw [hempty, braced, if_pos rfl]
    exact ⟨_, scanFrom_lone rfl (fun _ => rfl) (' ' :: '}' :: behind) place⟩
  · have htext : (braced body).toList ++ behind =
        '{' :: ' ' :: (body.toList ++ ' ' :: '}' :: behind) := by
      simp [braced, hempty]
    rw [htext, scanFrom_lone (c := '{') rfl fun _ => rfl]
    exact ⟨_, rfl⟩

theorem ReadableStatements.block {body : List Node} (h : ReadableStatements body)
    (behind : List Char) (place : Position) :
    ∃ brace trees place', skeletons trees = skeletons body ∧ Written (.block brace trees)
      (scanFrom 0 place ((braced (renderStatements body)).toList ++ behind))
      (scanFrom 0 place' behind) := by
  obtain ⟨place₁, hbraced⟩ := scanFrom_braced (renderStatements body) behind place
  have hends : ∀ place, EndsList (scanFrom 0 place (' ' :: '}' :: behind)) := by
    intro place
    rw [scanFrom_space, scanFrom_lone (c := '}') rfl fun _ => rfl]
    exact head?_cons rfl
  obtain ⟨trees, place₂, hskeletons, h⟩ :=
    h (' ' :: '}' :: behind) (apart_cons _ (by decide)) hends place₁
  rw [scanFrom_space, scanFrom_lone (c := '}') rfl fun _ => rfl] at h
  rw [hbraced]
  exact ⟨_, trees, _, hskeletons, .block rfl h.derives rfl,
    .cons nofun (h.legible.trans (.cons nofun .refl))⟩

variable {brace elseBrace : Token} {body elseBody : List Node}

theorem readable_ifThen (hcondition : condition.Readable) (hbody : ReadableStatements body) :
    (ifThen token condition brace body).Readable := by
  intro behind hbehind place
  have htext : (ifThen token condition brace body).render.toList ++ behind =
      "if".toList ++ ' ' :: '(' :: (condition.render.toList ++ ')' :: ' ' ::
        ((braced (renderStatements body)).toList ++ behind)) := by
    simp [render]
  rw [htext, scanFrom_reserved "if" .ifWord (by decide) rfl (apart_cons _ (by decide)),
    scanFrom_space, scanFrom_lone (c := '(') rfl fun _ => rfl]
  generalize ((place.afterAll "if".toList).after ' ').after '(' = place₁
  obtain ⟨tree, place₂, hskeleton, hcondition⟩ := hcondition
    (')' :: ' ' :: ((braced (renderStatements body)).toList ++ behind)) (apart_cons _ (by decide))
    place₁
  rw [scanFrom_lone (c := ')') rfl fun _ => rfl, scanFrom_space] at hcondition
  obtain ⟨brace', trees, place₃, hskeletons, hbody⟩ :=
    hbody.block behind ((place₂.after ')').after ' ')
  refine ⟨_, _, ?_, .ofTighter (.ifThen rfl rfl (hcondition.derives.loosen (by decide)) rfl
    hbody.derives), ?_⟩
  · rw [skeleton, mapTokens, ← skeleton, ← skeletons, hskeleton, hskeletons]
    rfl
  · exact .cons nofun (.cons nofun (hcondition.legible.trans (.cons nofun hbody.legible)))

theorem readable_ifThenElse (hcondition : condition.Readable) (hbody : ReadableStatements body)
    (helseBody : ReadableStatements elseBody) :
    (ifThenElse token condition brace body elseBrace elseBody).Readable := by
  intro behind hbehind place
  have htext : (ifThenElse token condition brace body elseBrace elseBody).render.toList ++ behind =
      "if".toList ++ ' ' :: '(' :: (condition.render.toList ++ ')' :: ' ' ::
        ((braced (renderStatements body)).toList ++ ' ' :: ("else".toList ++ ' ' ::
          ((braced (renderStatements elseBody)).toList ++ behind)))) := by
    simp [render]
  rw [htext, scanFrom_reserved "if" .ifWord (by decide) rfl (apart_cons _ (by decide)),
    scanFrom_space, scanFrom_lone (c := '(') rfl fun _ => rfl]
  generalize ((place.afterAll "if".toList).after ' ').after '(' = place₁
  generalize hother : ' ' :: ("else".toList ++ ' ' ::
    ((braced (renderStatements elseBody)).toList ++ behind)) = other
  obtain ⟨tree, place₂, hskeleton, hcondition⟩ := hcondition
    (')' :: ' ' :: ((braced (renderStatements body)).toList ++ other)) (apart_cons _ (by decide))
    place₁
  rw [scanFrom_lone (c := ')') rfl fun _ => rfl, scanFrom_space] at hcondition
  obtain ⟨brace', trees, place₃, hskeletons, hbody⟩ :=
    hbody.block other ((place₂.after ')').after ' ')
  subst hother
  rw [scanFrom_space, scanFrom_reserved "else" .elseWord (by decide) rfl (apart_cons _ (by decide)),
    scanFrom_space] at hbody
  obtain ⟨elseBrace', trees', place₄, hskeletons', helseBody⟩ :=
    helseBody.block behind (((place₃.after ' ').afterAll "else".toList).after ' ')
  refine ⟨_, _, ?_, .ofTighter (.ifThenElse rfl rfl (hcondition.derives.loosen (by decide)) rfl
    hbody.derives rfl helseBody.derives), ?_⟩
  · rw [skeleton, mapTokens, ← skeleton, ← skeletons, ← skeletons, hskeleton, hskeletons,
      hskeletons']
    rfl
  · have hbodies := hbody.legible.trans (.cons nofun helseBody.legible)
    exact .cons nofun (.cons nofun (hcondition.legible.trans (.cons nofun hbodies)))

/-! ## Lists in parentheses -/

/-- The tokens of the first list up to the second are names in some relation, legible and equal to the
given ones but for their tokens. -/
def WrittenNames (reads : List Token → List Identifier → List Token → Prop)
    (identifiers : List Identifier) (input rest : List Token) : Prop :=
  ∃ names, names.map (·.mapToken fun _ => default) =
    identifiers.map (·.mapToken fun _ => default) ∧ reads input names rest ∧ Legibly input rest

theorem written_names : ∀ (first : Identifier) (others : List Identifier),
    (∀ identifier ∈ first :: others, identifier.Valid) → ∀ behind, Apart behind → ∀ place,
    ∃ place', WrittenNames NameList (first :: others)
      (scanFrom 0 place ((Identifier.renderAll (first :: others)).toList ++ behind))
      (scanFrom 0 place' behind)
  | first, [], hvalid, behind, hbehind, place => by
    have htext : Identifier.renderAll [first] = first.name := String.intercalate_singleton
    rw [htext, (hvalid first List.mem_cons_self).scanFrom hbehind]
    exact ⟨_, [⟨⟨.ident, first.name, place⟩, first.name⟩], rfl, .last rfl, .cons nofun .refl⟩
  | first, second :: others, hvalid, behind, hbehind, place => by
    have htext : (Identifier.renderAll (first :: second :: others)).toList ++ behind =
        first.name.toList ++ ',' :: ' ' ::
          ((Identifier.renderAll (second :: others)).toList ++ behind) := by
      simp [Identifier.renderAll]
    obtain ⟨place', names, hnames, hlist, hlegible⟩ := written_names second others
      (fun identifier hmem => hvalid identifier (List.mem_cons_of_mem _ hmem)) behind hbehind
      (((place.afterAll first.name.toList).after ',').after ' ')
    rw [htext, (hvalid first List.mem_cons_self).scanFrom (apart_cons _ (by decide)),
      scanFrom_lone (c := ',') rfl fun _ => rfl, scanFrom_space]
    refine ⟨place', ⟨⟨.ident, first.name, place⟩, first.name⟩ :: names, ?_, .more rfl rfl hlist,
      .cons nofun (.cons nofun hlegible)⟩
    rw [List.map_cons, hnames]
    rfl

theorem written_parameters {parameters : List Identifier}
    (hvalid : ∀ identifier ∈ parameters, identifier.Valid) (behind : List Char) (place : Position) :
    ∃ place', WrittenNames Parameters parameters
      (scanFrom 0 place ((Identifier.renderAll parameters).toList ++ ')' :: behind))
      (scanFrom 0 place' behind) := by
  cases parameters with
  | nil =>
    have htext : (Identifier.renderAll []).toList ++ ')' :: behind = ')' :: behind := by
      simp [Identifier.renderAll]
    rw [htext, scanFrom_lone rfl fun _ => rfl]
    exact ⟨_, [], rfl, .none rfl, .cons nofun .refl⟩
  | cons first others =>
    obtain ⟨place', names, hnames, hlist, hlegible⟩ :=
      written_names first others hvalid (')' :: behind) (apart_cons _ (by decide)) place
    rw [scanFrom_lone rfl fun _ => rfl] at hlist hlegible
    exact ⟨_, names, hnames, .some hlist rfl, hlegible.trans (.cons nofun .refl)⟩

theorem readable_function {parameters : List Identifier} (hliteral : token.literal = "fn")
    (hparameters : ∀ parameter ∈ parameters, parameter.Valid) (hbody : ReadableStatements body) :
    (function token parameters brace body).Readable := by
  intro behind hbehind place
  have htext : (function token parameters brace body).render.toList ++ behind =
      "fn".toList ++ '(' :: ((Identifier.renderAll parameters).toList ++ ')' :: ' ' ::
        ((braced (renderStatements body)).toList ++ behind)) := by
    simp [render, hliteral]
  rw [htext, scanFrom_reserved "fn" .function (by decide) rfl (apart_cons _ (by decide)),
    scanFrom_lone (c := '(') rfl fun _ => rfl]
  obtain ⟨place₁, names, hnames, hlist, hlegible⟩ := written_parameters hparameters
    (' ' :: ((braced (renderStatements body)).toList ++ behind))
    ((place.afterAll "fn".toList).after '(')
  rw [scanFrom_space] at hlist hlegible
  obtain ⟨brace', trees, place₂, hskeletons, hbody⟩ := hbody.block behind (place₁.after ' ')
  refine ⟨_, _, ?_, .ofTighter (.function rfl rfl hlist hbody.derives), ?_⟩
  · rw [skeleton, mapTokens, ← skeletons, hskeletons, hnames]
    rfl
  · exact .cons nofun (.cons nofun (hlegible.trans hbody.legible))

/-- Wherever the canonical text of the arguments stands, it is read as the arguments. -/
def ReadableArguments (arguments : List Node) : Prop :=
  ∀ behind, Apart behind → ∀ place, ∃ trees place', skeletons trees = skeletons arguments ∧
    Written (.list trees) (scanFrom 0 place ((renderArguments arguments).toList ++ behind))
      (scanFrom 0 place' behind)

theorem readableArguments_last {last : Node} (h : last.Readable) : ReadableArguments [last] := by
  intro behind hbehind place
  obtain ⟨tree, place', hskeleton, h⟩ := h behind hbehind place
  exact ⟨[tree], place', congrArg (· :: []) hskeleton, .last (h.derives.loosen (by decide)),
    h.legible⟩

theorem readableArguments_more {first second : Node} {others : List Node} (h : first.Readable)
    (h' : ReadableArguments (second :: others)) : ReadableArguments (first :: second :: others) := by
  intro behind hbehind place
  have htext : (renderArguments (first :: second :: others)).toList ++ behind =
      first.render.toList ++ ',' :: ' ' ::
        ((renderArguments (second :: others)).toList ++ behind) := by
    simp [renderArguments]
  obtain ⟨tree, place₁, hskeleton, h⟩ := h (',' :: ' ' ::
    ((renderArguments (second :: others)).toList ++ behind)) (apart_cons _ (by decide)) place
  rw [scanFrom_lone rfl fun _ => rfl, scanFrom_space] at h
  obtain ⟨trees, place₂, hskeletons, h'⟩ :=
    h' behind hbehind ((place₁.after ',').after ' ')
  rw [htext]
  refine ⟨tree :: trees, place₂, ?_, .more (h.derives.loosen (by decide)) rfl h'.derives,
    h.legible.trans (.cons nofun h'.legible)⟩
  rw [skeletons, mapTokensAll, ← skeleton, ← skeletons, hskeleton, hskeletons]
  rfl

theorem readable_call {arguments : List Node} (hcallee : callee.Readable)
    (harguments : arguments ≠ [] → ReadableArguments arguments) :
    (call token callee arguments).Readable := by
  intro behind hbehind place
  have htext : (call token callee arguments).render.toList ++ behind =
      callee.render.toList ++ '(' :: ((renderArguments arguments).toList ++ ')' :: behind) := by
    simp [render]
  obtain ⟨tree, place₁, hskeleton, hcallee⟩ := hcallee
    ('(' :: ((renderArguments arguments).toList ++ ')' :: behind)) (apart_cons _ (by decide)) place
  rw [scanFrom_lone (c := '(') rfl fun _ => rfl] at hcallee
  have hlist : ∃ trees place', skeletons trees = skeletons arguments ∧ Written (.arguments trees)
      (scanFrom 0 (place₁.after '(') ((renderArguments arguments).toList ++ ')' :: behind))
      (scanFrom 0 place' behind) := by
    cases arguments with
    | nil =>
      rw [renderArguments, show "".toList ++ ')' :: behind = ')' :: behind from rfl,
        scanFrom_lone rfl fun _ => rfl]
      exact ⟨[], _, rfl, .noArguments rfl, .cons nofun .refl⟩
    | cons first others =>
      obtain ⟨trees, place', hskeletons, h⟩ := harguments (List.cons_ne_nil _ _) (')' :: behind)
        (apart_cons _ (by decide)) (place₁.after '(')
      rw [scanFrom_lone (c := ')') rfl fun _ => rfl] at h
      exact ⟨trees, _, hskeletons, .someArguments h.derives rfl,
        h.legible.trans (.cons nofun .refl)⟩
  obtain ⟨trees, place₂, hskeletons, hlist⟩ := hlist
  rw [htext]
  refine ⟨_, _, ?_, .call hcallee.derives rfl hlist.derives,
    hcallee.legible.trans (.cons nofun hlist.legible)⟩
  rw [skeleton, mapTokens, ← skeleton, ← skeletons, hskeleton, hskeletons]
  rfl

/-! ## Statements -/

/-- The semicolon that a statement in front of another one needs. -/
def mark (statement : Node) : List Char :=
  if statement.isExpression then [';'] else []

/-- The canonical text of the statement is read as the statement, with its mark in front of anything
and without it in front of the end of a list. -/
structure ReadableStatement (statement : Node) : Prop where
  marked : ∀ behind place, ∃ tree place', tree.skeleton = statement.skeleton ∧
    Written (.statement tree)
      (scanFrom 0 place (statement.render.toList ++ (statement.mark ++ behind)))
      (scanFrom 0 place' behind)
  bare : ∀ behind, Apart behind → (∀ place, EndsList (scanFrom 0 place behind)) → ∀ place,
    ∃ tree place', tree.skeleton = statement.skeleton ∧
      Written (.statement tree) (scanFrom 0 place (statement.render.toList ++ behind))
        (scanFrom 0 place' behind)

theorem written_semicolon {tree : Node} {input rest : List Token} {semicolon : Token}
    (h : Written (.expression .applied tree) input (semicolon :: rest))
    (hkind : semicolon.kind = .semicolon) : Written (.closed tree) input rest :=
  ⟨.semicolon (h.derives.loosen (by decide)) (head?_cons (by rw [hkind]; rfl)) hkind,
    h.legible.trans (.cons (by simp [hkind]) .refl)⟩

/-- A statement with its keyword has a semicolon of its own. -/
theorem readableStatement_of_marked {statement : Node} (hstatement : statement.mark = [])
    (h : ∀ behind place, ∃ tree place', tree.skeleton = statement.skeleton ∧
      Written (.statement tree) (scanFrom 0 place (statement.render.toList ++ behind))
        (scanFrom 0 place' behind)) : statement.ReadableStatement :=
  ⟨fun behind place => by rw [hstatement]; exact h behind place, fun behind _ _ => h behind⟩

theorem readableStatement_binding {identifier : Identifier} {value : Node}
    (hliteral : token.literal = "let") (hidentifier : identifier.Valid) (hvalue : value.Readable) :
    (binding token identifier value).ReadableStatement := by
  refine readableStatement_of_marked rfl fun behind place => ?_
  have htext : (binding token identifier value).render.toList ++ behind =
      "let".toList ++ ' ' :: (identifier.name.toList ++ ' ' :: '=' :: ' ' ::
        (value.render.toList ++ ';' :: behind)) := by
    simp [render, hliteral]
  rw [htext, scanFrom_reserved "let" .letWord (by decide) rfl (apart_cons _ (by decide)),
    scanFrom_space, hidentifier.scanFrom (apart_cons _ (by decide)), scanFrom_space,
    scanFrom_single (c := '=') rfl rfl, scanFrom_space]
  generalize (((((place.afterAll "let".toList).after ' ').afterAll
    identifier.name.toList).after ' ').after '=').after ' ' = place₁
  obtain ⟨tree, place₂, hskeleton, hvalue⟩ :=
    hvalue (';' :: behind) (apart_cons _ (by decide)) place₁
  rw [scanFrom_lone (c := ';') rfl fun _ => rfl] at hvalue
  have hclosed := written_semicolon hvalue rfl
  refine ⟨_, _, ?_, .statement (.binding rfl rfl rfl) hclosed.derives,
    .cons nofun (.cons nofun (.cons nofun hclosed.legible))⟩
  rw [skeleton, mapTokens, ← skeleton, hskeleton]
  rfl

theorem readableStatement_result {value : Node} (hliteral : token.literal = "return")
    (hvalue : value.Readable) : (result token value).ReadableStatement := by
  refine readableStatement_of_marked rfl fun behind place => ?_
  have htext : (result token value).render.toList ++ behind =
      "return".toList ++ ' ' :: (value.render.toList ++ ';' :: behind) := by
    simp [render, hliteral]
  rw [htext, scanFrom_reserved "return" .returnWord (by decide) rfl (apart_cons _ (by decide)),
    scanFrom_space]
  obtain ⟨tree, place₁, hskeleton, hvalue⟩ := hvalue (';' :: behind) (apart_cons _ (by decide))
    ((place.afterAll "return".toList).after ' ')
  rw [scanFrom_lone (c := ';') rfl fun _ => rfl] at hvalue
  have hclosed := written_semicolon hvalue rfl
  refine ⟨_, _, ?_, .statement (.result rfl) hclosed.derives, .cons nofun hclosed.legible⟩
  exact congrArg (result default) hskeleton

/-- An expression standing as a statement keeps its first token. -/
theorem written_expression {tree : Node} {input rest : List Token}
    (h : Written (.closed tree) input rest) :
    ∃ first, Written (.statement (.expression first tree)) input rest := by
  obtain ⟨first, others, rfl, -⟩ := h.derives.starts
  exact ⟨first, .statement .expression h.derives, h.legible⟩

theorem readableStatement_expression {inner : Node} (h : inner.Readable) :
    (expression token inner).ReadableStatement where
  marked behind place := by
    obtain ⟨tree, place', hskeleton, h⟩ := h (';' :: behind) (apart_cons _ (by decide)) place
    rw [scanFrom_lone (c := ';') rfl fun _ => rfl] at h
    obtain ⟨first, hstatement⟩ := written_expression (written_semicolon h rfl)
    exact ⟨.expression first tree, _, congrArg (expression default) hskeleton, hstatement⟩
  bare behind hbehind hends place := by
    obtain ⟨tree, place', hskeleton, h⟩ := h behind hbehind place
    obtain ⟨first, hstatement⟩ := written_expression
      ⟨.bare (h.derives.loosen (by decide)) ((hends place').settled _), h.legible⟩
    exact ⟨.expression first tree, _, congrArg (expression default) hskeleton, hstatement⟩

theorem readableStatements_nil : ReadableStatements [] :=
  fun _ _ _ place => ⟨[], place, rfl, .noStatements, .refl⟩

theorem readableStatements_last {last : Node} (h : last.ReadableStatement) :
    ReadableStatements [last] := by
  intro behind hbehind hends place
  obtain ⟨tree, place', hskeleton, h⟩ := h.bare behind hbehind hends place
  exact ⟨[tree], place', congrArg (· :: []) hskeleton, .someStatements h.derives .noStatements,
    h.legible⟩

theorem readableStatements_more {first second : Node} {others : List Node}
    (h : first.ReadableStatement) (h' : ReadableStatements (second :: others)) :
    ReadableStatements (first :: second :: others) := by
  intro behind hbehind hends place
  have htext : (renderStatements (first :: second :: others)).toList ++ behind =
      first.render.toList ++ (first.mark ++ ' ' ::
        ((renderStatements (second :: others)).toList ++ behind)) := by
    cases hexpression : first.isExpression <;>
      simp [renderStatements, separator, mark, hexpression]
  obtain ⟨tree, place₁, hskeleton, h⟩ := h.marked
    (' ' :: ((renderStatements (second :: others)).toList ++ behind)) place
  rw [scanFrom_space] at h
  obtain ⟨trees, place₂, hskeletons, h'⟩ := h' behind hbehind hends (place₁.after ' ')
  rw [htext]
  refine ⟨tree :: trees, place₂, ?_, .someStatements h.derives h'.derives,
    h.legible.trans h'.legible⟩
  rw [skeletons, mapTokensAll, ← skeleton, ← skeletons, hskeleton, hskeletons]
  rfl

/-! ## All trees -/

/-- No expression starts with a sign of equality, so `!` in front of one is a token for itself. -/
theorem head?_render : ∀ node : Node, node.ValidExpression → ∀ rest : List Char,
    (node.render.toList ++ rest).head? ≠ some '='
  | reference identifier, h, rest => by
    obtain ⟨c, cs, hname⟩ := List.exists_cons_of_ne_nil h.nonempty
    rw [render, hname]
    rintro ⟨⟩
    exact absurd (h.letters '=' (hname ▸ List.mem_cons_self)) (by decide)
  | integer _ value, h, rest => by
    obtain ⟨n, rfl⟩ := Int.eq_ofNat_of_zero_le h.1
    rw [show (integer _ n).render = n.repr from rfl, Nat.toList_repr]
    obtain ⟨c, cs, hdigits⟩ := List.exists_cons_of_ne_nil (Nat.toDigits_ne_nil (n := n) (b := 10))
    rw [hdigits]
    rintro ⟨⟩
    exact absurd (isDigit_of_mem_toDigits (hdigits ▸ List.mem_cons_self)) (by decide)
  | boolean _ true, _, _ | boolean _ false, _, _ | unary .., _, _ | binary .., _, _
  | ifThen .., _, _ | ifThenElse .., _, _ => by simp [render]
  | function token _ _ _, h, _ => by
    simp [render, h.1]
  | call _ callee _, h, rest => by
    have hcallee := head?_render callee h.1
    simp only [render, String.toList_append, List.append_assoc]
    exact hcallee _
  | program _, h, _ | binding .., h, _ | result .., h, _ | expression .., h, _ | block .., h, _
  | foreign .., h, _ => h.elim

mutual

theorem readable : ∀ node : Node, node.ValidExpression → node.Readable
  | reference _, h => readable_reference h
  | integer .., h => readable_integer h.1 h.2
  | boolean .., _ => readable_boolean
  | unary _ _ operand, h =>
    readable_unary h.1 (head?_render operand h.2) (readable operand h.2)
  | binary _ left _ right, h => readable_binary h.1 (readable left h.2.1) (readable right h.2.2)
  | ifThen _ condition _ body, h =>
    readable_ifThen (readable condition h.1) (readableStatements body h.2)
  | ifThenElse _ condition _ body _ elseBody, h =>
    readable_ifThenElse (readable condition h.1) (readableStatements body h.2.1)
      (readableStatements elseBody h.2.2)
  | function _ _ _ body, h => readable_function h.1 h.2.1 (readableStatements body h.2.2)
  | call _ callee arguments, h =>
    readable_call (readable callee h.1) fun hne => readableArguments arguments hne h.2
  | program _, h | binding .., h | result .., h | expression .., h | block .., h | foreign .., h =>
    h.elim

theorem readableStatement : ∀ node : Node, node.ValidStatement → node.ReadableStatement
  | binding _ _ value, h => readableStatement_binding h.1 h.2.1 (readable value h.2.2)
  | result _ value, h => readableStatement_result h.1 (readable value h.2)
  | expression _ inner, h => readableStatement_expression (readable inner h)
  | program _, h | reference _, h | integer .., h | boolean .., h | unary .., h | binary .., h
  | ifThen .., h | ifThenElse .., h | function .., h | call .., h | block .., h | foreign .., h =>
    h.elim

theorem readableArguments : ∀ arguments : List Node, arguments ≠ [] → ValidExpressions arguments →
    ReadableArguments arguments
  | [], hne, _ => absurd rfl hne
  | [last], _, h => readableArguments_last (readable last h.1)
  | first :: second :: others, _, h => readableArguments_more (readable first h.1)
    (readableArguments (second :: others) (List.cons_ne_nil _ _) h.2)

/-- **The canonical text of valid statements is read as the statements.** -/
theorem readableStatements : ∀ statements : List Node, ValidStatements statements →
    ReadableStatements statements
  | [], _ => readableStatements_nil
  | [last], h => readableStatements_last (readableStatement last h.1)
  | first :: second :: others, h => readableStatements_more (readableStatement first h.1)
    (readableStatements (second :: others) h.2)

end

end Node

end MonkeyLang
