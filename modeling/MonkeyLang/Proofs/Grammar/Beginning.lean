import MonkeyLang.Proofs.Grammar.Derivation

/-!
# The beginnings of constructs

Some tokens are the beginning of a construct if more tokens can be added so that it is complete.  Here
is how beginnings are put together: a complete construct and the beginning of the next one are the
beginning of both, and where one construct has begun and any tokens at all are known that make up the
next one, both have begun.

* `Construct` is what may stand between two places of a text.  `Construct.Begun` and
  `Construct.Complete` say how much of it does, and `Construct.Easy` that some tokens do.
* At the end of a text a block is complete without its closing brace.  So tokens may have to be added
  to a complete construct, too, but only at the end of the text.
-/

set_option autoImplicit false

namespace MonkeyLang

/-- What the tokens of one list up to another may be. -/
abbrev Construct : Type :=
  List Token → List Token → Prop

namespace Construct

/-! ## Putting constructs together -/

/-- No token at all. -/
def nothing : Construct :=
  Eq

/-- A token of one of the kinds. -/
def token (kinds : List TokenKind) : Construct := fun input rest =>
  ∃ token : Token, token.kind ∈ kinds ∧ input = token :: rest

/-- One construct and then another. -/
def followedBy (first second : Construct) : Construct := fun input rest =>
  ∃ middle, first input middle ∧ second middle rest

/-- The construct or nothing. -/
def optional (construct : Construct) : Construct := fun input rest =>
  input = rest ∨ construct input rest

/-! ## Adding tokens -/

/-- Tokens that may be added to a text. -/
def Filling (filling : List Token) : Prop :=
  ∀ token ∈ filling, token.kind ≠ .eof ∧ token.kind ≠ .int

theorem Filling.append {filling filling' : List Token} (h : Filling filling)
    (h' : Filling filling') : Filling (filling ++ filling') :=
  List.forall_mem_append.2 ⟨h, h'⟩

/-- The tokens up to the rest become the construct when some are added behind them, whatever stands
behind these. -/
def Begun (construct : Construct) (input rest : List Token) : Prop :=
  ∃ front filling, input = front ++ rest ∧ Filling filling ∧
    ∀ behind, construct (front ++ filling ++ behind) behind

/-- The tokens up to the rest are the construct.  Some may have to be added at the end of the text. -/
def Complete (construct : Construct) (input rest : List Token) : Prop :=
  ∃ front filling, input = front ++ rest ∧ Filling filling ∧ (rest = [] ∨ filling = []) ∧
    ∀ behind, construct (front ++ filling ++ behind) behind

/-- Some tokens are the construct. -/
def Easy (construct : Construct) : Prop :=
  ∃ filling, Filling filling ∧ ∀ behind, construct (filling ++ behind) behind

variable {construct construct' first second : Construct} {input middle rest : List Token}

theorem Begun.mono (h : construct.Begun input rest)
    (himp : ∀ input rest, construct input rest → construct' input rest) :
    construct'.Begun input rest := by
  obtain ⟨front, filling, rfl, hfilling, hbehind⟩ := h
  exact ⟨front, filling, rfl, hfilling, fun behind => himp _ _ (hbehind behind)⟩

theorem Complete.mono (h : construct.Complete input rest)
    (himp : ∀ input rest, construct input rest → construct' input rest) :
    construct'.Complete input rest := by
  obtain ⟨front, filling, rfl, hfilling, hend, hbehind⟩ := h
  exact ⟨front, filling, rfl, hfilling, hend, fun behind => himp _ _ (hbehind behind)⟩

theorem Easy.mono (h : construct.Easy)
    (himp : ∀ input rest, construct input rest → construct' input rest) : construct'.Easy := by
  obtain ⟨filling, hfilling, hbehind⟩ := h
  exact ⟨filling, hfilling, fun behind => himp _ _ (hbehind behind)⟩

theorem Easy.begun (h : construct.Easy) (input : List Token) : construct.Begun input input := by
  obtain ⟨filling, hfilling, hbehind⟩ := h
  exact ⟨[], filling, rfl, hfilling, hbehind⟩

theorem Begun.followedBy (h : first.Begun input rest) (h' : second.Easy) :
    (first.followedBy second).Begun input rest := by
  obtain ⟨front, filling, rfl, hfilling, hbehind⟩ := h
  obtain ⟨more, hmore, hbehind'⟩ := h'
  refine ⟨front, filling ++ more, rfl, hfilling.append hmore, fun behind => ?_⟩
  refine ⟨more ++ behind, ?_, hbehind' behind⟩
  simpa only [List.append_assoc] using hbehind (more ++ behind)

/-- If tokens had to be added at the end of the text, then the second construct has no tokens there. -/
theorem Complete.followedBy_begun (h : first.Complete input middle) (h' : second.Begun middle rest) :
    (first.followedBy second).Begun input rest := by
  obtain ⟨front, filling, rfl, hfilling, hend, hbehind⟩ := h
  obtain ⟨front', filling', rfl, hfilling', hbehind'⟩ := h'
  have hnone : filling ++ front' = front' ++ filling := by
    rcases hend with hend | rfl
    · rw [(List.append_eq_nil_iff.1 hend).1, List.append_nil, List.nil_append]
    · rw [List.append_nil, List.nil_append]
  refine ⟨front ++ front', filling ++ filling', by rw [List.append_assoc], hfilling.append hfilling',
    fun behind => ⟨front' ++ filling' ++ behind, ?_, hbehind' behind⟩⟩
  have h := hbehind (front' ++ filling' ++ behind)
  simp only [List.append_assoc] at h ⊢
  rwa [← List.append_assoc front', ← hnone, List.append_assoc]

theorem Complete.followedBy (h : first.Complete input middle) (h' : second.Complete middle rest) :
    (first.followedBy second).Complete input rest := by
  obtain ⟨front, filling, rfl, hfilling, hend, hbehind⟩ := h
  obtain ⟨front', filling', rfl, hfilling', hend', hbehind'⟩ := h'
  rcases hend with hend | rfl
  · obtain ⟨rfl, rfl⟩ := List.append_eq_nil_iff.1 hend
    refine ⟨front, filling ++ filling', rfl, hfilling.append hfilling', .inl rfl, fun behind => ?_⟩
    refine ⟨filling' ++ behind, ?_, hbehind' behind⟩
    simpa only [List.append_assoc] using hbehind (filling' ++ behind)
  · refine ⟨front ++ front', filling', by rw [List.append_assoc], hfilling', hend', fun behind => ?_⟩
    refine ⟨front' ++ filling' ++ behind, ?_, hbehind' behind⟩
    simpa only [List.append_assoc, List.nil_append] using hbehind (front' ++ filling' ++ behind)

theorem complete_nothing (input : List Token) : nothing.Complete input input :=
  ⟨[], [], rfl, fun _ hmem => absurd hmem List.not_mem_nil, .inr rfl, fun _ => rfl⟩

/-- One token is the construct, whatever stands behind. -/
theorem complete_of_token {token : Token} (h : ∀ behind, construct (token :: behind) behind)
    (rest : List Token) : construct.Complete (token :: rest) rest :=
  ⟨[token], [], rfl, fun _ hmem => absurd hmem List.not_mem_nil, .inr rfl, h⟩

/-- At the end of the text what is missing counts as there. -/
theorem Easy.complete_nil (h : construct.Easy) : construct.Complete [] [] := by
  obtain ⟨filling, hfilling, hbehind⟩ := h
  exact ⟨[], filling, rfl, hfilling, .inl rfl, hbehind⟩

theorem easy_nothing : nothing.Easy :=
  ⟨[], fun _ hmem => absurd hmem List.not_mem_nil, fun _ => rfl⟩

theorem easy_optional (construct : Construct) : construct.optional.Easy :=
  easy_nothing.mono fun _ _ => .inl

theorem easy_token (kind : TokenKind) (h : kind ≠ .eof ∧ kind ≠ .int) : (token [kind]).Easy :=
  ⟨[⟨kind, "", {}⟩], List.forall_mem_singleton.2 h,
    fun _ => ⟨_, List.mem_singleton_self kind, rfl⟩⟩

theorem Easy.followedBy (h : first.Easy) (h' : second.Easy) : (first.followedBy second).Easy := by
  obtain ⟨filling, hfilling, hbehind⟩ := h
  obtain ⟨more, hmore, hbehind'⟩ := h'
  refine ⟨filling ++ more, hfilling.append hmore, fun behind => ⟨more ++ behind, ?_, hbehind' behind⟩⟩
  simpa only [List.append_assoc] using hbehind (more ++ behind)

/-! ## The constructs of the language -/

/-- An expression of a stratum. -/
def expression (stratum : Stratum) : Construct := fun input rest =>
  ∃ tree, Derives Anywhere (.expression stratum tree) input rest

/-- What makes an expression of one stratum out of one of another that stands before it. -/
def extension (stratum stratum' : Stratum) : Construct := fun input rest =>
  ∀ origin, expression stratum origin input → expression stratum' origin rest

/-- Expressions with commas between them. -/
def list : Construct := fun input rest =>
  ∃ trees, Derives Anywhere (.list trees) input rest

/-- The arguments of a call, from behind the opening parenthesis. -/
def arguments : Construct := fun input rest =>
  ∃ trees, Derives Anywhere (.arguments trees) input rest

/-- Names with commas between them. -/
def nameList : Construct := fun input rest =>
  ∃ names, NameList input names rest

/-- The parameters of a function, from behind the opening parenthesis. -/
def parameters : Construct := fun input rest =>
  ∃ names, Parameters input names rest

def block : Construct := fun input rest =>
  ∃ brace body, Derives Anywhere (.block brace body) input rest

/-- The expression of a statement, with the semicolon behind it if there is one. -/
def closed : Construct := fun input rest =>
  ∃ tree, Derives Anywhere (.closed tree) input rest

def statement : Construct := fun input rest =>
  ∃ tree, Derives Anywhere (.statement tree) input rest

def statements : Construct := fun input rest =>
  ∃ trees, Derives Anywhere (.statements trees) input rest

variable {stratum stratum' : Stratum}

theorem expression_loosen (h : expression stratum input rest)
    (hle : stratum'.level ≤ stratum.level) : expression stratum' input rest := by
  obtain ⟨tree, htree⟩ := h
  exact ⟨tree, htree.loosen hle⟩

/-- The word `true` is an expression. -/
theorem easy_expression (stratum : Stratum) : (expression stratum).Easy := by
  refine (easy_token .trueWord (by decide)).mono ?_
  rintro _ rest ⟨word, hword, rfl⟩
  have hprimary : expression .primary (word :: rest) rest :=
    ⟨_, .trueWord (List.mem_singleton.1 hword)⟩
  exact expression_loosen hprimary (by cases stratum <;> decide)

theorem extension_of_nothing (hle : stratum'.level ≤ stratum.level) (h : nothing input rest) :
    extension stratum stratum' input rest :=
  fun _ horigin => h ▸ expression_loosen horigin hle

theorem easy_extension (hle : stratum'.level ≤ stratum.level) : (extension stratum stratum').Easy :=
  easy_nothing.mono fun _ _ => extension_of_nothing hle

theorem closed_of_optional
    (h : ((expression .disjunction).followedBy (token [.semicolon]).optional) input rest) :
    closed input rest := by
  obtain ⟨middle, ⟨tree, htree⟩, rfl | ⟨mark, hmark, rfl⟩⟩ := h
  · exact ⟨tree, .bare htree True.intro⟩
  · exact ⟨tree, .semicolon htree True.intro (List.mem_singleton.1 hmark)⟩

theorem easy_closed : closed.Easy :=
  ((easy_expression _).followedBy (easy_optional _)).mono fun _ _ => closed_of_optional

theorem statements_of_nothing (h : nothing input rest) : statements input rest :=
  h ▸ ⟨[], .noStatements⟩

theorem easy_statements : statements.Easy :=
  easy_nothing.mono fun _ _ => statements_of_nothing

/-- Two braces are a block. -/
theorem easy_block : block.Easy := by
  have hbraces := (easy_token .lbrace (by decide)).followedBy (easy_token .rbrace (by decide))
  refine hbraces.mono ?_
  rintro _ rest ⟨_, ⟨brace, hbrace, rfl⟩, closes, hcloses, rfl⟩
  exact ⟨_, _, .block (List.mem_singleton.1 hbrace) .noStatements (List.mem_singleton.1 hcloses)⟩

end Construct

end MonkeyLang
