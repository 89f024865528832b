import MonkeyLang.Token.Scan

/-!
# What scanned tokens look like

A token is an integer, a word, or an operator or delimiter of one or two characters, and every other
character is a token for itself (`Token.lexeme_cases`).  So the kind of a scanned token says much
about its text (`Token.Proper`), and conversely.
-/

set_option autoImplicit false

namespace MonkeyLang

/-- The kinds of words. -/
def TokenKind.isWord : TokenKind → Bool
  | ident | function | letWord | trueWord | falseWord | ifWord | elseWord | returnWord => true
  | _ => false

namespace Token

/-! ## One token -/

/-- The kind of the token that starts with `c`, and its text. -/
inductive Lexeme (c : Char) (rest : List Char) : TokenKind → List Char → Prop
  | integer (hdigit : isDigit c = true) : Lexeme c rest .int (c :: rest.takeWhile isDigit)
  | word (hdigit : isDigit c = false) (hletter : isLetter c = true) :
      Lexeme c rest (.ofWord (String.ofList (c :: rest.takeWhile isLetter)))
        (c :: rest.takeWhile isLetter)
  | pair {d : Char} {others : List Char} {kind : TokenKind} (hdigit : isDigit c = false)
      (hletter : isLetter c = false) (hrest : rest = d :: others)
      (hkind : TokenKind.ofPair? c d = some kind) : Lexeme c rest kind [c, d]
  | single (hdigit : isDigit c = false) (hletter : isLetter c = false)
      (hpair : rest.head?.bind (TokenKind.ofPair? c) = none) :
      Lexeme c rest ((TokenKind.ofSingle? c).getD .illegal) [c]

theorem take_takeWhile (p : Char → Bool) (cs : List Char) :
    cs.take (cs.takeWhile p).length = cs.takeWhile p :=
  (List.prefix_iff_eq_take.1 (List.takeWhile_prefix p)).symm

theorem lexeme_cases (c : Char) (rest : List Char) :
    Lexeme c rest (lexeme c rest).1 (c :: rest.take (lexeme c rest).2) := by
  rw [lexeme]
  split
  · rename_i hdigit
    rw [take_takeWhile]
    exact .integer hdigit
  · rename_i hdigit
    have hdigit := Bool.eq_false_iff.2 hdigit
    split
    · rename_i hletter
      rw [take_takeWhile]
      exact .word hdigit hletter
    · rename_i hletter
      have hletter := Bool.eq_false_iff.2 hletter
      split
      · rename_i kind hkind
        cases rest with
        | nil => cases hkind
        | cons d others => exact .pair hdigit hletter rfl hkind
      · rename_i hpair
        exact .single hdigit hletter hpair

/-! ## Kinds and texts -/

/-- The kind of a word is that of a word. -/
theorem isWord_ofWord (word : String) : (TokenKind.ofWord word).isWord = true := by
  unfold TokenKind.ofWord
  repeat' split
  all_goals rfl

/-- A token's text fits its kind, as it does when the token is read off a text. -/
structure Proper (token : Token) : Prop where
  eof : token.kind ≠ .eof
  integer : token.kind = .int →
    token.literal.toList ≠ [] ∧ ∀ c ∈ token.literal.toList, isDigit c = true
  word : token.kind.isWord = true → token.literal.toList ≠ [] ∧
    (∀ c ∈ token.literal.toList, isLetter c = true) ∧
    TokenKind.ofWord token.literal = token.kind
  symbol : ∀ text, token.kind.symbol? = some text → token.literal = text

theorem symbol?_ofPair? {c d : Char} {kind : TokenKind} (h : TokenKind.ofPair? c d = some kind) :
    kind.symbol? = some (String.ofList [c, d]) := by
  unfold TokenKind.ofPair? at h
  split at h <;> cases h <;> rfl

theorem symbol?_ofSingle? {c : Char} {kind : TokenKind} (h : TokenKind.ofSingle? c = some kind) :
    kind.symbol? = some (String.ofList [c]) := by
  unfold TokenKind.ofSingle? at h
  split at h <;> cases h <;> rfl

/-- A kind that has a text of its own is neither that of a word nor that of integers. -/
theorem proper_of_symbol? {kind : TokenKind} {text : String} {place : Position}
    (h : kind.symbol? = some text) : Proper ⟨kind, text, place⟩ := by
  refine ⟨?_, ?_, ?_, fun text' h' => Option.some.inj (h.symm.trans h')⟩
  · rintro rfl
    cases h
  · rintro rfl
    cases h
  · intro hword
    cases kind <;> first | cases h; done | cases hword

theorem of_mem_takeWhile {p : Char → Bool} {cs : List Char} {c : Char}
    (h : c ∈ cs.takeWhile p) : p c = true := by
  have hall := @List.all_takeWhile _ p cs
  exact List.all_eq_true.1 hall c h

theorem Lexeme.proper {c : Char} {rest cs : List Char} {kind : TokenKind} {place : Position}
    (h : Lexeme c rest kind cs) : Proper ⟨kind, String.ofList cs, place⟩ := by
  cases h with
  | integer hdigit =>
    refine ⟨by rintro ⟨⟩, fun _ => ?_, by rintro ⟨⟩, by rintro _ ⟨⟩⟩
    rw [String.toList_ofList]
    refine ⟨List.cons_ne_nil _ _, fun d hd => ?_⟩
    rcases List.mem_cons.1 hd with rfl | hd
    · exact hdigit
    · exact of_mem_takeWhile hd
  | word _ hletter =>
    have hword := isWord_ofWord (String.ofList (c :: rest.takeWhile isLetter))
    have hletters : ∀ d ∈ c :: rest.takeWhile isLetter, isLetter d = true := by
      intro d hd
      rcases List.mem_cons.1 hd with rfl | hd
      · exact hletter
      · exact of_mem_takeWhile hd
    generalize hkind : TokenKind.ofWord _ = kind at hword ⊢
    refine ⟨?_, ?_, fun _ => ?_, fun text htext => ?_⟩
    · rintro rfl
      cases hword
    · rintro rfl
      cases hword
    · rw [String.toList_ofList]
      exact ⟨List.cons_ne_nil _ _, hletters, hkind⟩
    · cases kind <;> first | cases hword; done | cases htext
  | pair _ _ _ hkind => exact proper_of_symbol? (symbol?_ofPair? hkind)
  | single _ _ hpair =>
    cases hkind : TokenKind.ofSingle? c with
    | none => exact ⟨by rintro ⟨⟩, by rintro ⟨⟩, by rintro ⟨⟩, by rintro _ ⟨⟩⟩
    | some kind => exact proper_of_symbol? (symbol?_ofSingle? hkind)

/-! ## All tokens -/

/-- Every scanned token is read off some place of the text. -/
theorem exists_lexeme {token : Token} : ∀ (text : List Char) {inside : Nat} {place : Position},
    token ∈ scanFrom inside place text →
    ∃ c rest, c :: rest <:+ text ∧ isSpace c = false ∧
      token.kind = (lexeme c rest).1 ∧
      token.literal = String.ofList (c :: rest.take (lexeme c rest).2)
  | [], inside, place, hmem => by cases inside <;> cases hmem
  | c :: rest, inside + 1, place, hmem => by
    obtain ⟨d, others, hsuffix, htoken⟩ := exists_lexeme rest hmem
    exact ⟨d, others, hsuffix.trans (List.suffix_cons _ _), htoken⟩
  | c :: rest, 0, place, hmem => by
    rw [scanFrom] at hmem
    split at hmem
    · obtain ⟨d, others, hsuffix, htoken⟩ := exists_lexeme rest hmem
      exact ⟨d, others, hsuffix.trans (List.suffix_cons _ _), htoken⟩
    · rename_i hspace
      rcases List.mem_cons.1 hmem with rfl | hmem
      · exact ⟨c, rest, List.suffix_refl _, Bool.eq_false_iff.2 hspace, rfl, rfl⟩
      · obtain ⟨d, others, hsuffix, htoken⟩ := exists_lexeme rest hmem
        exact ⟨d, others, hsuffix.trans (List.suffix_cons _ _), htoken⟩

/-- **Scanned tokens are proper.** -/
theorem proper_of_mem_scanFrom {token : Token} {text : List Char} {inside : Nat} {place : Position}
    (h : token ∈ scanFrom inside place text) : token.Proper := by
  obtain ⟨c, rest, -, -, hkind, hliteral⟩ := exists_lexeme text h
  have hproper := @Lexeme.proper _ _ _ _ token.place (lexeme_cases c rest)
  rw [← hkind, ← hliteral] at hproper
  exact hproper

end Token

end MonkeyLang
