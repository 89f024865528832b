import MonkeyLang.Proofs.Scanning.Pieces
import MonkeyLang.Proofs.Scanning.Lossless
import MonkeyLang.Proofs.Rendering.Validity

/-!
# Longest match

Where a token starts, several texts may be in front: `<=` starts with `<`, and `iffy` with `if`.  The walk
over a text asks for the class of the first character and for operators of two characters before those of
one.  This file is about what it finds: always the longest text in front that the language has a token for.

* `Denotes` says which texts these are, and of which kind: it knows nothing of an order among them.
* `LongestMatch` cuts a text into tokens by that rule alone.  Where no text in front is a token's, the first
  character is passed over if it is a space, and is an `illegal` token if it is not.
* `Token.scan_eq_iff_longestMatch` says that this is how a source text is scanned, and the only way to cut it
  by the rule.
-/

set_option autoImplicit false

namespace MonkeyLang

open Token

/-! ## The texts of tokens -/

/-- The reserved words with their kinds. -/
def keywords : List (String × TokenKind) :=
  [("fn", .function), ("let", .letWord), ("true", .trueWord), ("false", .falseWord), ("if", .ifWord),
   ("else", .elseWord), ("return", .returnWord)]

/-- A text is that of a token of a kind: a run of digits, a reserved word, another run of letters and
underscores, or an operator or delimiter. -/
inductive Denotes : List Char → TokenKind → Prop
  | numeral {text : List Char} (hne : text ≠ []) (hdigits : ∀ c ∈ text, isDigit c = true) :
      Denotes text .int
  | keyword {text : List Char} {kind : TokenKind} (hword : (String.ofList text, kind) ∈ keywords) :
      Denotes text kind
  | name {text : List Char} (hne : text ≠ []) (hletters : ∀ c ∈ text, isLetter c = true)
      (hfree : ∀ kind, (String.ofList text, kind) ∉ keywords) : Denotes text .ident
  | symbol {text : List Char} {kind : TokenKind} (hsymbol : kind.symbol? = some (String.ofList text)) :
      Denotes text kind

/-- The same, told by the class of the first character. -/
inductive Denotes.Reading (c : Char) : List Char → TokenKind → Prop
  | digits {cs : List Char} (hdigit : isDigit c = true) (hdigits : ∀ d ∈ cs, isDigit d = true) :
      Reading c cs .int
  | letters {cs : List Char} (hletter : isLetter c = true) (hletters : ∀ d ∈ cs, isLetter d = true) :
      Reading c cs (.ofWord (String.ofList (c :: cs)))
  | single {kind : TokenKind} (hkind : TokenKind.ofSingle? c = some kind) : Reading c [] kind
  | pair {d : Char} {kind : TokenKind} (hkind : TokenKind.ofPair? c d = some kind) : Reading c [d] kind

theorem TokenKind.ofSingle?_or_ofPair?_of_symbol? {kind : TokenKind} {text : String}
    (h : kind.symbol? = some text) :
    (∃ c, text.toList = [c] ∧ ofSingle? c = some kind) ∨
      ∃ c d, text.toList = [c, d] ∧ ofPair? c d = some kind := by
  cases kind <;> cases h <;> first | exact .inl ⟨_, rfl, rfl⟩ | exact .inr ⟨_, _, rfl, rfl⟩

theorem reservedWords_eq_map_keywords : reservedWords = keywords.map (·.1) := rfl

theorem ofWord_of_mem_keywords {entry : String × TokenKind} (h : entry ∈ keywords) :
    TokenKind.ofWord entry.1 = entry.2 := by
  have hkeywords : ∀ entry ∈ keywords, TokenKind.ofWord entry.1 = entry.2 := by decide
  exact hkeywords entry h

theorem mem_keywords_of_mem_reservedWords {word : String} (h : word ∈ reservedWords) :
    (word, TokenKind.ofWord word) ∈ keywords := by
  rw [reservedWords_eq_map_keywords] at h
  obtain ⟨entry, hentry, rfl⟩ := List.mem_map.1 h
  rwa [ofWord_of_mem_keywords hentry]

namespace Denotes

theorem exists_reading {text : List Char} {kind : TokenKind} (h : Denotes text kind) :
    ∃ c cs, text = c :: cs ∧ Reading c cs kind := by
  have hkeywords : ∀ entry ∈ keywords, entry.1.toList ≠ [] ∧ entry.1.toList.all isLetter = true := by
    decide
  rcases h with ⟨hne, hdigits⟩ | ⟨hword⟩ | ⟨hne, hletters, hfree⟩ | ⟨hsymbol⟩
  · obtain ⟨c, cs, rfl⟩ := List.exists_cons_of_ne_nil hne
    rw [List.forall_mem_cons] at hdigits
    exact ⟨c, cs, rfl, .digits hdigits.1 hdigits.2⟩
  · obtain ⟨hne, hletters⟩ := hkeywords _ hword
    rw [String.toList_ofList] at hne hletters
    obtain ⟨c, cs, rfl⟩ := List.exists_cons_of_ne_nil hne
    rw [List.all_eq_true, List.forall_mem_cons] at hletters
    have hreading := Reading.letters hletters.1 hletters.2
    rw [ofWord_of_mem_keywords hword] at hreading
    exact ⟨c, cs, rfl, hreading⟩
  · obtain ⟨c, cs, rfl⟩ := List.exists_cons_of_ne_nil hne
    rw [List.forall_mem_cons] at hletters
    have hreading := Reading.letters hletters.1 hletters.2
    have hunreserved : String.ofList (c :: cs) ∉ reservedWords :=
      fun hmem => hfree _ (mem_keywords_of_mem_reservedWords hmem)
    rw [TokenKind.ofWord_eq_ident_iff.2 hunreserved] at hreading
    exact ⟨c, cs, rfl, hreading⟩
  · rcases TokenKind.ofSingle?_or_ofPair?_of_symbol? hsymbol with ⟨c, htext, hkind⟩ | ⟨c, d, htext, hkind⟩
    all_goals rw [String.toList_ofList] at htext
    · exact ⟨c, [], htext, .single hkind⟩
    · exact ⟨c, [d], htext, .pair hkind⟩

theorem reading {c : Char} {cs : List Char} {kind : TokenKind} (h : Denotes (c :: cs) kind) :
    Reading c cs kind := by
  obtain ⟨_, _, htext, hreading⟩ := h.exists_reading
  obtain ⟨rfl, rfl⟩ := List.cons.inj htext
  exact hreading

/-- No token starts with a space. -/
theorem Reading.isSpace_eq_false {c : Char} {cs : List Char} {kind : TokenKind}
    (h : Reading c cs kind) : isSpace c = false := by
  rcases h with ⟨hdigit, -⟩ | ⟨hletter, -⟩ | ⟨hkind⟩ | ⟨hkind⟩
  · exact Token.isSpace_eq_false hdigit (by decide)
  · exact Token.isSpace_eq_false hletter (by decide)
  · exact (isSpace_of_ofSingle? hkind).1
  · exact (isSpace_of_ofPair? hkind).1

theorem takeWhile_of_all {p : Char → Bool} {cs : List Char} (hcs : ∀ c ∈ cs, p c = true) :
    cs.takeWhile p = cs := by
  have htake := @takeWhile_append_of_all p cs [] hcs nofun
  rwa [List.append_nil] at htake

/-- The text of a token, by itself, is read as that token. -/
theorem Reading.lexeme_eq {c : Char} {cs : List Char} {kind : TokenKind} (h : Reading c cs kind) :
    lexeme c cs = (kind, cs.length) := by
  rcases h with ⟨hdigit, hdigits⟩ | ⟨hletter, hletters⟩ | ⟨hkind⟩ | ⟨hkind⟩
  · rw [lexeme, hdigit, takeWhile_of_all hdigits]
    rfl
  · rw [lexeme, isDigit_of_isLetter hletter, hletter, takeWhile_of_all hletters]
    rfl
  · obtain ⟨-, hdigit, hletter⟩ := isSpace_of_ofSingle? hkind
    simp [lexeme, hdigit, hletter, hkind]
  · obtain ⟨-, hdigit, hletter⟩ := isSpace_of_ofPair? hkind
    simp [lexeme, hdigit, hletter, hkind]

/-- A text is that of tokens of one kind only. -/
theorem kind_unique {text : List Char} {kind kind' : TokenKind} (h : Denotes text kind)
    (h' : Denotes text kind') : kind = kind' := by
  obtain ⟨c, cs, rfl, hreading⟩ := h.exists_reading
  have hlexeme := hreading.lexeme_eq.symm.trans h'.reading.lexeme_eq
  exact congrArg Prod.fst hlexeme

end Denotes

/-- No longer text in front is that of a token. -/
def LongestIn (text input : List Char) : Prop :=
  ∀ other kind, Denotes other kind → other <+: input → other.length ≤ text.length

/-! ## Cutting a text -/

/-- The tokens of a text that has `front` in front of it: where tokens are in front, the longest is taken,
and otherwise one character, which is an `illegal` token unless it is a space.  The places are counted off
what is in front. -/
inductive LongestMatch : List Char → List Char → List Token → Prop
  | done {front : List Char} : LongestMatch front [] []
  | space {front rest : List Char} {c : Char} {tokens : List Token} (hspace : isSpace c = true)
      (hrest : LongestMatch (front ++ [c]) rest tokens) : LongestMatch front (c :: rest) tokens
  | token {front text rest : List Char} {kind : TokenKind} {tokens : List Token}
      (hdenotes : Denotes text kind) (hlongest : LongestIn text (text ++ rest))
      (hrest : LongestMatch (front ++ text) rest tokens) :
      LongestMatch front (text ++ rest) (⟨kind, String.ofList text, .behind front⟩ :: tokens)
  | illegal {front rest : List Char} {c : Char} {tokens : List Token} (hspace : isSpace c = false)
      (hnone : ∀ text kind, Denotes text kind → ¬text <+: c :: rest)
      (hrest : LongestMatch (front ++ [c]) rest tokens) :
      LongestMatch front (c :: rest) (⟨.illegal, String.ofList [c], .behind front⟩ :: tokens)

namespace Token

theorem lexeme_le (c : Char) (rest : List Char) : (lexeme c rest).2 ≤ rest.length := by
  rw [lexeme]
  split
  · exact (List.takeWhile_prefix _).length_le
  · split
    · exact (List.takeWhile_prefix _).length_le
    · cases rest with
      | nil => exact Nat.le_refl 0
      | cons d others => split <;> simp

/-- The token in front is one of the language, unless it is illegal. -/
theorem Lexeme.denotes_or_eq {c : Char} {rest text : List Char} {kind : TokenKind}
    (h : Lexeme c rest kind text) : Denotes text kind ∨ kind = .illegal ∧ text = [c] := by
  rcases h with ⟨hdigit⟩ | ⟨hdigit, hletter⟩ | ⟨_, _, _, hkind⟩ | ⟨_, _, _⟩
  · refine .inl (.numeral (List.cons_ne_nil _ _) (List.forall_mem_cons.2 ⟨hdigit, ?_⟩))
    exact fun d hd => of_mem_takeWhile hd
  · have hletters : ∀ d ∈ c :: rest.takeWhile isLetter, isLetter d = true :=
      List.forall_mem_cons.2 ⟨hletter, fun d hd => of_mem_takeWhile hd⟩
    by_cases hreserved : String.ofList (c :: rest.takeWhile isLetter) ∈ reservedWords
    · exact .inl (.keyword (mem_keywords_of_mem_reservedWords hreserved))
    · rw [TokenKind.ofWord_eq_ident_iff.2 hreserved]
      refine .inl (.name (List.cons_ne_nil _ _) hletters fun kind hmem => hreserved ?_)
      rw [reservedWords_eq_map_keywords]
      exact List.mem_map_of_mem hmem
  · exact .inl (.symbol (symbol?_ofPair? hkind))
  · cases hkind : TokenKind.ofSingle? c with
    | none => exact .inr ⟨rfl, rfl⟩
    | some kind => exact .inl (.symbol (symbol?_ofSingle? hkind))

theorem length_le_takeWhile {p : Char → Bool} {cs rest : List Char} (hcs : ∀ c ∈ cs, p c = true)
    (hbegins : cs <+: rest) : cs.length ≤ (rest.takeWhile p).length := by
  obtain ⟨tail, rfl⟩ := hbegins
  rw [List.takeWhile_append_of_pos hcs, List.length_append]
  exact Nat.le_add_right _ _

/-- If the language has a token for a text in front, the walk finds one, and none that is shorter. -/
theorem lexeme_longest {c : Char} {cs rest : List Char} {kind : TokenKind}
    (h : Denotes (c :: cs) kind) (hbegins : cs <+: rest) :
    cs.length ≤ (lexeme c rest).2 ∧ (lexeme c rest).1 ≠ .illegal := by
  rcases h.reading with ⟨hdigit, hdigits⟩ | ⟨hletter, hletters⟩ | ⟨hkind⟩ | ⟨hkind⟩
  · rw [lexeme, hdigit]
    refine ⟨length_le_takeWhile hdigits hbegins, ?_⟩
    rintro ⟨⟩
  · rw [lexeme, isDigit_of_isLetter hletter, hletter]
    refine ⟨length_le_takeWhile hletters hbegins, fun hillegal => ?_⟩
    have hword := isWord_ofWord (String.ofList (c :: rest.takeWhile isLetter))
    rw [show TokenKind.ofWord _ = .illegal from hillegal] at hword
    cases hword
  · obtain ⟨-, hdigit, hletter⟩ := isSpace_of_ofSingle? hkind
    refine ⟨Nat.zero_le _, ?_⟩
    simp only [lexeme, hdigit, hletter, hkind]
    cases hpair : rest.head?.bind (TokenKind.ofPair? c) with
    | none =>
      rintro rfl
      cases symbol?_ofSingle? hkind
    | some kind' =>
      rintro rfl
      obtain ⟨d, -, hpair⟩ := Option.bind_eq_some_iff.1 hpair
      cases symbol?_ofPair? hpair
  · obtain ⟨-, hdigit, hletter⟩ := isSpace_of_ofPair? hkind
    obtain ⟨tail, rfl⟩ := hbegins
    simp only [lexeme, hdigit, hletter, hkind, List.cons_append, List.head?_cons, Option.bind_some]
    refine ⟨Nat.le_refl 1, ?_⟩
    rintro rfl
    cases symbol?_ofPair? hkind

/-- What the walk takes where a token starts: the longest text in front that is a token's, and one character
if there is none. -/
inductive Cut (c : Char) (rest cs : List Char) (kind : TokenKind) : Prop
  | token (hdenotes : Denotes (c :: cs) kind) (hlongest : LongestIn (c :: cs) (c :: rest))
  | illegal (hcs : cs = []) (hkind : kind = .illegal)
      (hnone : ∀ text kind, Denotes text kind → ¬text <+: c :: rest)

theorem exists_cut (c : Char) (rest : List Char) :
    ∃ cs tail kind, rest = cs ++ tail ∧ lexeme c rest = (kind, cs.length) ∧ Cut c rest cs kind := by
  refine ⟨_, _, (lexeme c rest).1, (List.take_append_drop (lexeme c rest).2 rest).symm, ?_, ?_⟩
  · rw [List.length_take, Nat.min_eq_left (lexeme_le c rest)]
  · have hshorter : ∀ other kind, Denotes other kind → other <+: c :: rest →
        other.length ≤ (lexeme c rest).2 + 1 ∧ (lexeme c rest).1 ≠ .illegal := by
      intro other kind hother hbegins
      obtain ⟨_, cs, rfl, -⟩ := hother.exists_reading
      obtain ⟨rfl, htail⟩ := List.cons_prefix_cons.1 hbegins
      obtain ⟨hle, hne⟩ := lexeme_longest hother htail
      exact ⟨Nat.succ_le_succ hle, hne⟩
    rcases (lexeme_cases c rest).denotes_or_eq with hdenotes | ⟨hkind, htext⟩
    · refine .token hdenotes fun other kind hother hbegins => ?_
      rw [List.length_cons, List.length_take, Nat.min_eq_left (lexeme_le c rest)]
      exact (hshorter other kind hother hbegins).1
    · exact .illegal (List.cons.inj htext).2 hkind fun other kind hother hbegins =>
        (hshorter other kind hother hbegins).2 hkind

end Token

/-! ## The walk -/

namespace LongestMatch

/-- Cutting by longest match does what the walk does. -/
theorem eq_scanFrom {front text : List Char} {tokens : List Token} (h : LongestMatch front text tokens) :
    tokens = scanFrom 0 (.behind front) text := by
  induction h with
  | done => rfl
  | space hspace _ ih => rw [scanFrom_cons, if_pos hspace, ih, Position.behind_concat]
  | @token front text rest kind tokens hdenotes hlongest _ ih =>
    obtain ⟨c, cs, rfl, hreading⟩ := hdenotes.exists_reading
    obtain ⟨cs', tail, kind', hrest, hlexeme, hcut⟩ := exists_cut c (cs ++ rest)
    rw [List.cons_append] at hlongest
    rcases hcut with ⟨hdenotes', hlongest'⟩ | ⟨-, -, hnone⟩
    · have hle := hlongest _ _ hdenotes' (hrest ▸ List.prefix_append (c :: cs') tail)
      have hle' := hlongest' _ _ hdenotes (List.prefix_append (c :: cs) rest)
      obtain ⟨rfl, -⟩ := List.append_inj hrest (Nat.succ.inj (Nat.le_antisymm hle' hle))
      obtain rfl := hdenotes.kind_unique hdenotes'
      rw [scanFrom_append_of_lexeme hreading.isSpace_eq_false hlexeme, ih, Position.behind_afterAll]
    · exact absurd (List.prefix_append (c :: cs) rest) (hnone _ _ hdenotes)
  | @illegal front rest c tokens hspace hnone _ ih =>
    obtain ⟨cs, tail, kind, rfl, hlexeme, hcut⟩ := exists_cut c rest
    rcases hcut with ⟨hdenotes, -⟩ | ⟨rfl, rfl, -⟩
    · exact absurd (List.prefix_append (c :: cs) tail) (hnone _ _ hdenotes)
    · have hscan := scanFrom_append_of_lexeme hspace hlexeme (.behind front)
      rw [Position.behind_afterAll] at hscan
      rw [ih]
      exact hscan.symm

/-- The walk cuts a text by longest match. -/
theorem of_scanFrom (front : List Char) : ∀ text : List Char,
    LongestMatch front text (scanFrom 0 (.behind front) text)
  | [] => .done
  | c :: rest => by
    by_cases hspace : isSpace c = true
    · rw [scanFrom_cons, if_pos hspace, ← Position.behind_concat]
      exact .space hspace (of_scanFrom _ rest)
    · have hspace := Bool.eq_false_iff.2 hspace
      obtain ⟨cs, tail, kind, rfl, hlexeme, hcut⟩ := exists_cut c rest
      have htail := of_scanFrom (front ++ c :: cs) tail
      rw [← Position.behind_afterAll] at htail
      rw [← List.cons_append, scanFrom_append_of_lexeme hspace hlexeme]
      rcases hcut with ⟨hdenotes, hlongest⟩ | ⟨rfl, rfl, hnone⟩
      · exact .token hdenotes hlongest (Position.behind_afterAll _ _ ▸ htail)
      · exact .illegal hspace hnone htail
termination_by text => text.length

end LongestMatch

/-- **Scanning is longest match.**  Cut a source text from its start on, taking at each place the longest
text in front that is a numeral, a word, an operator or a delimiter, as a token of the kind that this very
text has, and, where there is none, one character, which is an illegal token unless it is a space: this gives
the scanned tokens with their places, and no other tokens. -/
theorem Token.scan_eq_iff_longestMatch (source : String) (tokens : List Token) :
    tokens = Token.scan source.toList ↔ LongestMatch [] source.toList tokens := by
  constructor
  · rintro rfl
    exact LongestMatch.of_scanFrom [] source.toList
  · intro h
    exact h.eq_scanFrom

/-- Of three operator characters in a row, the first two are an operator. -/
example : (Token.scan "&&&".toList).map (·.kind) = [.land, .band] := by decide +kernel

end MonkeyLang
