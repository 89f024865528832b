import MonkeyLang.Proofs.Scanning.Concatenation

/-!
# Scanning a text piece by piece

What the tokens of a text are is told from its front: a space is passed over, and an operator, a
delimiter, a word or a numeral is one token if what stands behind it cannot be a part of it.  So a
text that is put together from such pieces is scanned piece by piece.

`Apart` says that a text can stand behind a word or a numeral.
-/

set_option autoImplicit false

namespace MonkeyLang

/-- A text does not start with a character that words or numerals consist of. -/
def Apart (text : List Char) : Prop :=
  ∀ c ∈ text.head?, Token.isLetter c = false ∧ Token.isDigit c = false

theorem apart_cons {c : Char} (rest : List Char)
    (h : Token.isLetter c = false ∧ Token.isDigit c = false) : Apart (c :: rest) := by
  rintro _ ⟨⟩
  exact h

namespace Token

/-! ## Spaces, operators and delimiters -/

theorem scanFrom_space (rest : List Char) (place : Position) :
    scanFrom 0 place (' ' :: rest) = scanFrom 0 (place.after ' ') rest := rfl

theorem isSpace_of_ofSingle? {c : Char} {kind : TokenKind} (h : TokenKind.ofSingle? c = some kind) :
    isSpace c = false ∧ isDigit c = false ∧ isLetter c = false := by
  unfold TokenKind.ofSingle? at h
  split at h <;> first | (cases h; done) | decide

theorem isSpace_of_ofPair? {c d : Char} {kind : TokenKind} (h : TokenKind.ofPair? c d = some kind) :
    isSpace c = false ∧ isDigit c = false ∧ isLetter c = false := by
  unfold TokenKind.ofPair? at h
  split at h <;> first | (cases h; done) | decide

/-- An operator or delimiter of one character, unless it starts one of two characters. -/
theorem scanFrom_single {c : Char} {kind : TokenKind} (hkind : TokenKind.ofSingle? c = some kind)
    {rest : List Char} (hpair : rest.head?.bind (TokenKind.ofPair? c) = none) (place : Position) :
    scanFrom 0 place (c :: rest) =
      ⟨kind, String.ofList [c], place⟩ :: scanFrom 0 (place.after c) rest := by
  obtain ⟨hspace, hdigit, hletter⟩ := isSpace_of_ofSingle? hkind
  have hlexeme : lexeme c rest = (kind, 0) := by
    rw [lexeme, hdigit, hletter, hpair, hkind]
    rfl
  rw [scanFrom_cons, hspace, hlexeme]
  rfl

/-- An operator or delimiter that starts no longer one. -/
theorem scanFrom_lone {c : Char} {kind : TokenKind} (hkind : TokenKind.ofSingle? c = some kind)
    (hlone : ∀ d, TokenKind.ofPair? c d = none) (rest : List Char) (place : Position) :
    scanFrom 0 place (c :: rest) =
      ⟨kind, String.ofList [c], place⟩ :: scanFrom 0 (place.after c) rest := by
  refine scanFrom_single hkind ?_ place
  cases rest with
  | nil => rfl
  | cons d others => exact hlone d

/-- An operator of two characters. -/
theorem scanFrom_pair {c d : Char} {kind : TokenKind} (hkind : TokenKind.ofPair? c d = some kind)
    (rest : List Char) (place : Position) :
    scanFrom 0 place (c :: d :: rest) =
      ⟨kind, String.ofList [c, d], place⟩ :: scanFrom 0 ((place.after c).after d) rest := by
  obtain ⟨hspace, hdigit, hletter⟩ := isSpace_of_ofPair? hkind
  have hlexeme : lexeme c (d :: rest) = (kind, 1) := by
    rw [lexeme, hdigit, hletter, List.head?_cons, Option.bind_some, hkind]
    rfl
  rw [scanFrom_cons, hspace, hlexeme]
  rfl

/-! ## Words and numerals -/

theorem takeWhile_append_of_all {p : Char → Bool} {cs rest : List Char}
    (hcs : ∀ c ∈ cs, p c = true) (hrest : ∀ c ∈ rest.head?, p c = false) :
    (cs ++ rest).takeWhile p = cs := by
  rw [List.takeWhile_append_of_pos hcs]
  cases rest with
  | nil => exact List.append_nil cs
  | cons c rest =>
    rw [List.takeWhile_cons, hrest c rfl]
    exact List.append_nil cs

/-- The characters of a token are passed over. -/
theorem scanFrom_length (rest : List Char) : ∀ (cs : List Char) (place : Position),
    scanFrom cs.length place (cs ++ rest) = scanFrom 0 (place.afterAll cs) rest
  | [], _ => rfl
  | _ :: cs, _ => scanFrom_length rest cs _

/-- A token that ends with the piece that it starts. -/
theorem scanFrom_append_of_lexeme {c : Char} {cs rest : List Char} {kind : TokenKind}
    (hspace : isSpace c = false) (hlexeme : lexeme c (cs ++ rest) = (kind, cs.length))
    (place : Position) :
    scanFrom 0 place (c :: cs ++ rest) =
      ⟨kind, String.ofList (c :: cs), place⟩ :: scanFrom 0 (place.afterAll (c :: cs)) rest := by
  rw [List.cons_append, scanFrom_cons, hspace, hlexeme, List.take_left, scanFrom_length]
  rfl

theorem isSpace_eq_false {p : Char → Bool} {c : Char} (h : p c = true)
    (hspaces : (p ' ' || p '\t' || p '\r' || p '\n') = false) : isSpace c = false := by
  simp only [Bool.or_eq_false_iff] at hspaces
  obtain ⟨⟨⟨hspace, htab⟩, hreturn⟩, hfeed⟩ := hspaces
  refine Bool.eq_false_iff.2 fun hc => ?_
  simp only [isSpace, Bool.or_eq_true, decide_eq_true_eq] at hc
  rcases hc with ((rfl | rfl) | rfl) | rfl
  · exact absurd h (by simp [hspace])
  · exact absurd h (by simp [htab])
  · exact absurd h (by simp [hreturn])
  · exact absurd h (by simp [hfeed])

theorem isDigit_of_isLetter {c : Char} (h : isLetter c = true) : isDigit c = false := by
  refine Bool.eq_false_iff.2 fun hdigit => ?_
  simp only [isDigit, Bool.and_eq_true, decide_eq_true_eq] at hdigit
  simp only [isLetter, Bool.or_eq_true, Bool.and_eq_true, decide_eq_true_eq] at h
  have hupper : c.toNat ≤ 0x39 := hdigit.2
  rcases h with (⟨hlower, -⟩ | ⟨hlower, -⟩) | rfl
  · have hlower : 0x61 ≤ c.toNat := hlower
    omega
  · have hlower : 0x41 ≤ c.toNat := hlower
    omega
  · exact absurd hupper (by decide)

/-- A word. -/
theorem scanFrom_word (word : String) (hne : word.toList ≠ [])
    (hletters : ∀ c ∈ word.toList, isLetter c = true) {rest : List Char} (hrest : Apart rest)
    (place : Position) :
    scanFrom 0 place (word.toList ++ rest) =
      ⟨.ofWord word, word, place⟩ :: scanFrom 0 (place.afterAll word.toList) rest := by
  obtain ⟨c, cs, hword⟩ := List.exists_cons_of_ne_nil hne
  rw [hword] at hletters
  have hletter := hletters c List.mem_cons_self
  have hspace := isSpace_eq_false (p := isLetter) hletter (by decide)
  have hlexeme : lexeme c (cs ++ rest) = (.ofWord (String.ofList (c :: cs)), cs.length) := by
    rw [lexeme, isDigit_of_isLetter hletter, hletter, takeWhile_append_of_all
      (fun d hd => hletters d (List.mem_cons_of_mem _ hd)) fun d hd => (hrest d hd).1]
    rfl
  rw [hword, scanFrom_append_of_lexeme hspace hlexeme, ← hword, String.ofList_toList]

/-- A numeral. -/
theorem scanFrom_numeral (numeral : String) (hne : numeral.toList ≠ [])
    (hdigits : ∀ c ∈ numeral.toList, isDigit c = true) {rest : List Char} (hrest : Apart rest)
    (place : Position) :
    scanFrom 0 place (numeral.toList ++ rest) =
      ⟨.int, numeral, place⟩ :: scanFrom 0 (place.afterAll numeral.toList) rest := by
  obtain ⟨c, cs, hnumeral⟩ := List.exists_cons_of_ne_nil hne
  rw [hnumeral] at hdigits
  have hdigit := hdigits c List.mem_cons_self
  have hspace := isSpace_eq_false (p := isDigit) hdigit (by decide)
  have hlexeme : lexeme c (cs ++ rest) = (.int, cs.length) := by
    rw [lexeme, hdigit, takeWhile_append_of_all
      (fun d hd => hdigits d (List.mem_cons_of_mem _ hd)) fun d hd => (hrest d hd).2]
    rfl
  rw [hnumeral, scanFrom_append_of_lexeme hspace hlexeme, ← hnumeral, String.ofList_toList]

end Token

end MonkeyLang
