import MonkeyLang.Proofs.Scanning.Lexemes

/-!
# Scanning one text behind another

A semicolon is always a token for itself.  So behind a text whose last token is one, another text is
scanned as if it stood alone (`Token.scan_append`), but for the places of its tokens, which are
shifted by the extent of the first text (`Position.shift`).
-/

set_option autoImplicit false

namespace MonkeyLang

/-! ## Shifted places -/

/-- A place in a text, as a place in a text where this text starts at `start`. -/
def Position.shift (start place : Position) : Position :=
  if place.line = 1 then ⟨start.line, start.column + place.column - 1⟩
  else ⟨start.line + place.line - 1, place.column⟩

/-- Where a text ends that starts at a place. -/
def Position.afterAll (place : Position) (text : List Char) : Position :=
  text.foldl Position.after place

theorem Position.shift_start (start : Position) : start.shift {} = start := by
  obtain ⟨line, column⟩ := start
  rw [shift, if_pos rfl]
  exact congrArg (Position.mk line) (Int.add_sub_cancel column 1)

theorem Position.line_after {place : Position} (h : 1 ≤ place.line) (c : Char) :
    1 ≤ (place.after c).line := by
  rw [after]
  split
  · show 1 ≤ place.line + 1
    omega
  · exact h

theorem Position.shift_after (start : Position) {place : Position} (h : 1 ≤ place.line) (c : Char) :
    (start.shift place).after c = start.shift (place.after c) := by
  obtain ⟨line, column⟩ := place
  have h : 1 ≤ line := h
  by_cases hfeed : c = '\n' <;> by_cases hline : line = 1
  · simp only [after, shift, hfeed, hline, if_true]
    congr 1
    omega
  · have hnext : ¬line + 1 = 1 := by omega
    simp only [after, shift, hfeed, hline, hnext, if_true, if_false]
    congr 1
    omega
  · simp only [after, shift, hfeed, hline, if_true, if_false]
    congr 1
    omega
  · simp [after, shift, hfeed, hline]

theorem Position.shift_afterAll (start : Position) : ∀ (text : List Char) (place : Position),
    1 ≤ place.line → (start.shift place).afterAll text = start.shift (place.afterAll text)
  | [], _, _ => rfl
  | c :: rest, place, h => by
    rw [afterAll, List.foldl_cons, shift_after start h]
    exact shift_afterAll start rest _ (line_after h c)

namespace Token

/-- The same token at another place. -/
def mapPlace (f : Position → Position) (token : Token) : Token :=
  { token with place := f token.place }

/-- Where no token is being read, a token starts unless there is a space. -/
theorem scanFrom_cons (place : Position) (c : Char) (rest : List Char) :
    scanFrom 0 place (c :: rest) =
      if isSpace c then scanFrom 0 (place.after c) rest
      else ⟨(lexeme c rest).1, String.ofList (c :: rest.take (lexeme c rest).2), place⟩ ::
        scanFrom (lexeme c rest).2 (place.after c) rest := rfl

/-- Where a text starts matters to the places of its tokens and to nothing else. -/
theorem scanFrom_shift (start : Position) : ∀ (text : List Char) (inside : Nat) (place : Position),
    1 ≤ place.line → scanFrom inside (start.shift place) text =
      (scanFrom inside place text).map (mapPlace start.shift)
  | [], inside, place, _ => by cases inside <;> rfl
  | c :: rest, inside + 1, place, h => by
    rw [scanFrom, scanFrom, Position.shift_after start h]
    exact scanFrom_shift start rest inside _ (Position.line_after h c)
  | c :: rest, 0, place, h => by
    have hrest := fun inside => scanFrom_shift start rest inside _ (Position.line_after h c)
    rw [scanFrom_cons, scanFrom_cons, Position.shift_after start h]
    split
    · exact hrest 0
    · rw [List.map_cons, hrest]
      rfl

/-! ## One text behind another -/

theorem scanFrom_eq_nil : ∀ {text : List Char} {inside : Nat} {place : Position},
    text.length ≤ inside → scanFrom inside place text = []
  | [], inside, _, _ => by cases inside <;> rfl
  | c :: rest, 0, _, h => absurd h (Nat.not_succ_le_zero _)
  | c :: rest, inside + 1, place, h => by
    rw [scanFrom]
    exact scanFrom_eq_nil (Nat.le_of_succ_le_succ h)

theorem takeWhile_append_of_lt {p : Char → Bool} {cs ds : List Char}
    (h : (cs.takeWhile p).length < cs.length) : (cs ++ ds).takeWhile p = cs.takeWhile p := by
  rw [List.takeWhile_append, if_neg (Nat.ne_of_lt h)]

/-- A token that ends before its text ends is not longer in a longer text. -/
theorem lexeme_append {c : Char} {rest more : List Char} (h : (lexeme c rest).2 < rest.length) :
    lexeme c (rest ++ more) = lexeme c rest := by
  cases rest with
  | nil => cases h
  | cons d others =>
    rw [lexeme] at h
    rw [lexeme, lexeme]
    split
    · rename_i hdigit
      rw [if_pos hdigit] at h
      rw [takeWhile_append_of_lt h]
    · rename_i hdigit
      rw [if_neg hdigit] at h
      split
      · rename_i hletter
        rw [if_pos hletter] at h
        rw [takeWhile_append_of_lt h]
      · rfl

/-- A semicolon is a token by itself. -/
theorem lexeme_semicolon (rest : List Char) : lexeme ';' rest = (.semicolon, 0) := by
  cases rest <;> rfl

theorem eq_semicolon_of_lexeme {c : Char} {rest : List Char}
    (h : (lexeme c rest).1 = .semicolon) : c = ';' := by
  have hproper := @Lexeme.proper _ _ _ _ {} (lexeme_cases c rest)
  have hliteral := congrArg String.toList (hproper.symbol ";" (by rw [h]; rfl))
  rw [String.toList_ofList] at hliteral
  exact (List.cons.inj hliteral).1

/-- Behind a text without tokens, or whose last token is a semicolon, scanning starts afresh. -/
theorem scanFrom_append (more : List Char) : ∀ (text : List Char) (inside : Nat) (place : Position),
    inside ≤ text.length →
    (∀ token ∈ (scanFrom inside place text).getLast?, token.kind = .semicolon) →
    scanFrom inside place (text ++ more) =
      scanFrom inside place text ++ scanFrom 0 (place.afterAll text) more
  | [], inside, place, hinside, _ => by
    obtain rfl := Nat.le_zero.1 hinside
    rfl
  | c :: rest, inside + 1, place, hinside, hlast => by
    rw [List.cons_append, scanFrom, scanFrom]
    exact scanFrom_append more rest inside _ (Nat.le_of_succ_le_succ hinside) hlast
  | c :: rest, 0, place, _, hlast => by
    rw [List.cons_append, scanFrom_cons, scanFrom_cons]
    rw [scanFrom_cons] at hlast
    split
    · rename_i hspace
      rw [if_pos hspace] at hlast
      exact scanFrom_append more rest 0 _ (Nat.zero_le _) hlast
    · rename_i hspace
      rw [if_neg hspace] at hlast
      cases hothers : scanFrom (lexeme c rest).2 (place.after c) rest with
      | nil =>
        -- the last token is a semicolon, which nothing can be glued to
        rw [hothers] at hlast
        obtain rfl := eq_semicolon_of_lexeme (hlast _ rfl)
        have hnone : scanFrom 0 (place.after ';') rest = [] := by
          rw [lexeme_semicolon] at hothers
          exact hothers
        have happend := scanFrom_append more rest 0 (place.after ';') (Nat.zero_le _)
          (by rw [hnone]; rintro _ ⟨⟩)
        rw [hnone] at happend
        rw [lexeme_semicolon, lexeme_semicolon]
        exact congrArg _ happend
      | cons second others =>
        -- there is a token behind this one, so this one ends before the text does
        have hinside : (lexeme c rest).2 < rest.length := by
          refine Nat.lt_of_not_le fun hle => ?_
          rw [scanFrom_eq_nil hle] at hothers
          cases hothers
        rw [lexeme_append hinside, ← hothers, List.take_append_of_le_length (Nat.le_of_lt hinside)]
        refine congrArg _ (scanFrom_append more rest _ _ (Nat.le_of_lt hinside) ?_)
        rw [hothers] at hlast ⊢
        exact hlast

/-- A text whose last token is a semicolon, with another one behind it. -/
theorem scan_append {text : List Char}
    (h : ∀ token ∈ (scan text).getLast?, token.kind = .semicolon) (more : List Char) :
    scan (text ++ more) =
      scan text ++ (scan more).map (mapPlace (Position.afterAll {} text).shift) := by
  rw [scan, scanFrom_append more text 0 {} (Nat.zero_le _) h]
  have hshift := scanFrom_shift (Position.afterAll {} text) more 0 {} (Int.le_refl _)
  rw [Position.shift_start] at hshift
  rw [hshift]
  rfl

/-- The end of a text with another one behind it. -/
theorem endOf_append (text more : List Char) :
    endOf (text ++ more) = (endOf more).mapPlace (Position.afterAll {} text).shift := by
  have hshift := Position.shift_afterAll (Position.afterAll {} text) more {} (Int.le_refl 1)
  rw [Position.shift_start] at hshift
  rw [endOf, List.foldl_append]
  exact congrArg (Token.mk .eof "") hshift

end Token

end MonkeyLang
