import MonkeyLang.Proofs.Scanning.Pieces

/-!
# Tokens with spaces between them

What a token is may depend on what stands around it in the text: `=` and `=` side by side are one token,
and digits end where letters begin.  But all that a token takes from its surroundings is where it ends.
Its own text, with a space or nothing behind it, is read as the same token again (`Token.Whole`), even
if it is illegal; and no token reaches over a space.

So if the texts of some scanned tokens are written one after the other with spaces between them, they are
scanned as these tokens (`Token.map_unplaced_scan_spaced`), though at other places.
-/

set_option autoImplicit false

namespace MonkeyLang

namespace Token

/-- The texts of some tokens with one space between each two of them. -/
def spaced (tokens : List Token) : String :=
  " ".intercalate (tokens.map (·.literal))

/-! ## A token before a space -/

/-- There is nothing behind a place, or a space. -/
def Parted (behind : List Char) : Prop :=
  ∀ c ∈ behind.head?, isSpace c = true

theorem parted_nil : Parted [] :=
  nofun

theorem parted_space (rest : List Char) : Parted (' ' :: rest) := by
  rintro _ ⟨⟩
  rfl

/-- A space is no part of a numeral, a word or an operator. -/
theorem classes_of_isSpace {c : Char} (h : isSpace c = true) :
    isDigit c = false ∧ isLetter c = false ∧ ∀ first, TokenKind.ofPair? first c = none := by
  simp only [isSpace, Bool.or_eq_true, decide_eq_true_eq] at h
  rcases h with ((rfl | rfl) | rfl) | rfl
  all_goals
    refine ⟨by decide, by decide, fun first => ?_⟩
    unfold TokenKind.ofPair?
    split <;> first | rfl | (rename_i h; cases h)

/-- A token that is read off some text is read off its own text, too, and off no more of it. -/
theorem Lexeme.lexeme_append {c : Char} {rest cs behind : List Char} {kind : TokenKind}
    (h : Lexeme c rest kind (c :: cs)) (hbehind : Parted behind) :
    lexeme c (cs ++ behind) = (kind, cs.length) := by
  cases h with
  | integer hdigit =>
    rw [lexeme, hdigit, takeWhile_append_of_all (fun d hd => of_mem_takeWhile hd)
      fun d hd => (classes_of_isSpace (hbehind d hd)).1]
    rfl
  | word hdigit hletter =>
    rw [lexeme, hdigit, hletter, takeWhile_append_of_all (fun d hd => of_mem_takeWhile hd)
      fun d hd => (classes_of_isSpace (hbehind d hd)).2.1]
    rfl
  | pair hdigit hletter _ hkind =>
    rw [lexeme, hdigit, hletter, List.cons_append, List.head?_cons, Option.bind_some, hkind]
    rfl
  | single hdigit hletter _ =>
    have hpair : behind.head?.bind (TokenKind.ofPair? c) = none := by
      rw [Option.bind_eq_none_iff]
      exact fun d hd => (classes_of_isSpace (hbehind d hd)).2.2 c
    rw [List.nil_append, lexeme, hdigit, hletter, hpair]
    rfl

/-- The text of the token is read as the token itself where a space or nothing is behind it. -/
def Whole (token : Token) : Prop :=
  ∃ c cs, token.literal = String.ofList (c :: cs) ∧ isSpace c = false ∧
    ∀ behind, Parted behind → lexeme c (cs ++ behind) = (token.kind, cs.length)

theorem whole_of_mem_scanFrom {token : Token} {text : List Char} {inside : Nat} {place : Position}
    (h : token ∈ scanFrom inside place text) : token.Whole := by
  obtain ⟨c, rest, -, hspace, hkind, hliteral⟩ := exists_lexeme text h
  refine ⟨c, _, hliteral, hspace, fun behind hbehind => ?_⟩
  rw [hkind]
  exact (lexeme_cases c rest).lexeme_append hbehind

/-! ## Many tokens -/

theorem Whole.scanFrom_append {token : Token} (h : token.Whole) {behind : List Char}
    (hbehind : Parted behind) (place : Position) :
    scanFrom 0 place (token.literal.toList ++ behind) =
      { token with place } :: scanFrom 0 (place.afterAll token.literal.toList) behind := by
  obtain ⟨c, cs, hliteral, hspace, hlexeme⟩ := h
  have htext : token.literal.toList = c :: cs := by rw [hliteral, String.toList_ofList]
  rw [htext, scanFrom_append_of_lexeme hspace (hlexeme behind hbehind), ← hliteral]

/-- Each token is read off its own text, and the space behind it is passed over. -/
theorem map_unplaced_scanFrom_spaced : ∀ {tokens : List Token}, (∀ token ∈ tokens, token.Whole) →
    ∀ place, (scanFrom 0 place (spaced tokens).toList).map unplaced = tokens.map unplaced
  | [], _, _ => rfl
  | [token], h, place => by
    have hscan := (h token List.mem_cons_self).scanFrom_append parted_nil place
    rw [List.append_nil] at hscan
    rw [spaced, List.map_singleton, String.intercalate_singleton, hscan]
    rfl
  | token :: next :: rest, h, place => by
    have hrest := @map_unplaced_scanFrom_spaced (next :: rest)
      fun other hother => h other (List.mem_cons_of_mem _ hother)
    have hscan := (h token List.mem_cons_self).scanFrom_append
      (parted_space (spaced (next :: rest)).toList) place
    rw [scanFrom_space] at hscan
    have htext : (spaced (token :: next :: rest)).toList =
        token.literal.toList ++ ' ' :: (spaced (next :: rest)).toList := by
      rw [spaced, List.map_cons, List.map_cons, String.intercalate_cons_cons, String.toList_append,
        String.toList_append, List.append_assoc]
      rfl
    rw [htext, hscan, List.map_cons, hrest, List.map_cons]
    rfl

theorem map_unplaced_scan_spaced (text : List Char) :
    (scan (spaced (scan text)).toList).map unplaced = (scan text).map unplaced :=
  map_unplaced_scanFrom_spaced (fun _ htoken => whole_of_mem_scanFrom htoken) {}

/-- Where tokens touch one another, the spaces show what they are. -/
example : spaced (scan "let x1=a===b$&&&;".toList) = "let x 1 = a == = b $ && & ;" := by
  decide +kernel

end Token

end MonkeyLang
