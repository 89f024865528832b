import MonkeyLang.Proofs.Scanning.Concatenation

/-!
# Nothing of a text is lost

A text is made up of its tokens and of the spaces around them, and a token tells where it stands: on
which line, and in which column of it.  So the text can be put together again from the tokens and the
gaps between them, and the place of a token can be counted off the text in front of it.

The walk over a text does not count: it only passes from the place of one character to that of the next.
`Position.behind` is the place that is counted off, and `Position.afterAll_eq_behind` says that the walk
arrives there.

* A `Piece` is a token with the spaces in front of it.  `Piece.Placed` says that the tokens of some pieces
  tell the places where they stand.
* `Token.exists_pieces` cuts a text into pieces, along the walk.
* `TokenStream.ofSource_lossless` puts this together for the tokens of a source text.
-/

set_option autoImplicit false

namespace MonkeyLang

/-! ## Counting lines and columns -/

namespace Position

/-- The place behind a text that starts on the first line: the lines are counted by their line feeds, the
columns by the characters since the last of these. -/
def behind (text : List Char) : Position :=
  ⟨1 + text.count '\n', 1 + (text.reverse.takeWhile (· ≠ '\n')).length⟩

theorem behind_concat (text : List Char) (c : Char) :
    behind (text ++ [c]) = (behind text).after c := by
  rw [behind, after, List.count_append, List.reverse_concat, List.takeWhile_cons]
  by_cases hfeed : c = '\n'
  · subst hfeed
    simp [behind, Int.add_assoc]
  · simp [behind, hfeed, Int.add_assoc]

theorem behind_afterAll : ∀ text front : List Char,
    (behind front).afterAll text = behind (front ++ text)
  | [], front => by rw [List.append_nil]; rfl
  | c :: text, front => by
    have hrest := behind_afterAll text (front ++ [c])
    rw [behind_concat, List.append_assoc] at hrest
    exact hrest

/-- The walk over a text ends at the place that is counted off. -/
theorem afterAll_eq_behind (text : List Char) : afterAll {} text = behind text :=
  behind_afterAll text []

theorem afterAll_append (start : Position) (front text : List Char) :
    start.afterAll (front ++ text) = (start.afterAll front).afterAll text :=
  List.foldl_append

end Position

/-! ## Pieces -/

/-- A token of a text, with the spaces between it and the token before it. -/
structure Piece where
  gap : List Char
  token : Token
  spaces : ∀ c ∈ gap, Token.isSpace c = true
  literal_ne : token.literal ≠ ""
  kind_ne : token.kind ≠ .eof

namespace Piece

/-- The characters of a piece. -/
def text (piece : Piece) : List Char :=
  piece.gap ++ piece.token.literal.toList

/-- A piece with one more space in front of it. -/
def pushSpace (c : Char) (hspace : Token.isSpace c = true) (piece : Piece) : Piece :=
  { piece with gap := c :: piece.gap, spaces := List.forall_mem_cons.2 ⟨hspace, piece.spaces⟩ }

/-- The tokens of pieces tell where they stand, if the pieces follow one another from the start on. -/
def Placed : Position → List Piece → Prop
  | _, [] => True
  | start, piece :: rest =>
    piece.token.place = start.afterAll piece.gap ∧ Placed (start.afterAll piece.text) rest

theorem Placed.place {piece : Piece} {behind : List Piece} : ∀ {before : List Piece} {start : Position},
    Placed start (before ++ piece :: behind) →
    piece.token.place = start.afterAll (before.flatMap text ++ piece.gap)
  | [], _, h => h.1
  | first :: before, start, h => by
    rw [List.flatMap_cons, List.append_assoc, Position.afterAll_append]
    exact h.2.place

end Piece

namespace Token

/-- The text behind a token that is being read falls into pieces, which hold the tokens that are scanned,
and spaces behind them. -/
theorem exists_pieces : ∀ (text : List Char) (inside : Nat) (place : Position),
    ∃ pieces : List Piece, ∃ final : List Char,
      pieces.map Piece.token = scanFrom inside place text ∧
      text.drop inside = pieces.flatMap Piece.text ++ final ∧
      (∀ c ∈ final, isSpace c = true) ∧
      Piece.Placed (place.afterAll (text.take inside)) pieces
  | [], inside, place => by
    refine ⟨[], [], ?_, List.drop_nil, List.forall_mem_nil _, True.intro⟩
    cases inside <;> rfl
  | c :: rest, inside + 1, place => exists_pieces rest inside (place.after c)
  | c :: rest, 0, place => by
    rw [scanFrom_cons]
    split
    · -- the space belongs to the first piece, or to the end if there are no pieces
      rename_i hspace
      obtain ⟨pieces, final, htokens, htext, hfinal, hplaced⟩ := exists_pieces rest 0 (place.after c)
      cases pieces with
      | nil =>
        exact ⟨[], c :: final, htokens, congrArg (c :: ·) htext,
          List.forall_mem_cons.2 ⟨hspace, hfinal⟩, hplaced⟩
      | cons first others =>
        exact ⟨first.pushSpace c hspace :: others, final, htokens, congrArg (c :: ·) htext, hfinal,
          hplaced⟩
    · obtain ⟨pieces, final, htokens, htext, hfinal, hplaced⟩ :=
        exists_pieces rest (lexeme c rest).2 (place.after c)
      have hproper := @Lexeme.proper _ _ _ _ place (lexeme_cases c rest)
      have hliteral : String.ofList (c :: rest.take (lexeme c rest).2) ≠ "" := by
        rw [Ne, String.ofList_eq_empty_iff]
        exact List.cons_ne_nil _ _
      let piece : Piece :=
        { gap := []
          token := ⟨(lexeme c rest).1, String.ofList (c :: rest.take (lexeme c rest).2), place⟩
          spaces := List.forall_mem_nil _
          literal_ne := hliteral
          kind_ne := hproper.eof }
      have hpiece : piece.text = c :: rest.take (lexeme c rest).2 := String.toList_ofList
      refine ⟨piece :: pieces, final, congrArg _ htokens, ?_, hfinal, rfl, ?_⟩
      · rw [List.flatMap_cons, List.append_assoc, ← htext, hpiece, List.cons_append,
          List.take_append_drop]
        rfl
      · rw [hpiece]
        exact hplaced

end Token

/-! ## Source texts -/

namespace TokenStream

theorem read_replicate (last : Token) : ∀ count,
    read count ⟨[], last⟩ = List.replicate count last
  | 0 => rfl
  | count + 1 => congrArg (last :: ·) (read_replicate last count)

/-- All tokens are read, and behind them the last one again and again. -/
theorem read_add (last : Token) (count : Nat) : ∀ tokens : List Token,
    read (tokens.length + count) ⟨tokens, last⟩ = tokens ++ List.replicate count last
  | [] => by rw [List.length_nil, Nat.zero_add, read_replicate, List.nil_append]
  | first :: rest => by
    rw [List.length_cons, Nat.succ_add, List.cons_append, ← read_add last count rest]
    rfl

/-- **Scanning loses nothing, and the places are exact.**  The source text is that of its pieces, one after
the other, with spaces behind them.  The tokens of the pieces, none of which is empty or stands for the
end, are those that are scanned, and behind them the token of the end is read as often as it is asked
for.  The place of each token is counted off the text in front of it, and that of the end off the whole
text. -/
theorem ofSource_lossless (source : String) :
    ∃ pieces : List Piece, ∃ final : List Char,
      pieces.map Piece.token = Token.scan source.toList ∧
      source.toList = pieces.flatMap Piece.text ++ final ∧
      (∀ c ∈ final, Token.isSpace c = true) ∧
      (∀ before piece behind, pieces = before ++ piece :: behind →
        piece.token.place = .behind (before.flatMap Piece.text ++ piece.gap)) ∧
      ∀ count, (ofSource source).read (pieces.length + count) =
        pieces.map Piece.token ++ List.replicate count ⟨.eof, "", .behind source.toList⟩ := by
  obtain ⟨pieces, final, htokens, htext, hfinal, hplaced⟩ := Token.exists_pieces source.toList 0 {}
  refine ⟨pieces, final, htokens, htext, hfinal, ?_, fun count => ?_⟩
  · rintro before piece behind rfl
    rw [← Position.afterAll_eq_behind]
    exact hplaced.place
  · have hlast : (ofSource source).last = ⟨.eof, "", .behind source.toList⟩ := by
      rw [← Position.afterAll_eq_behind]
      rfl
    have hread := read_add (ofSource source).last count (pieces.map Piece.token)
    rw [List.length_map, hlast, htokens] at hread
    rw [htokens, ← hread, ← hlast]
    rfl

/-- A carriage return and a tab are columns like any other, and the text ends on a line of its own. -/
example : (ofSource "a\t\n\r b \n").read 3 =
    [⟨.ident, "a", ⟨1, 1⟩⟩, ⟨.ident, "b", ⟨2, 3⟩⟩, ⟨.eof, "", ⟨3, 1⟩⟩] := by decide +kernel

end TokenStream

end MonkeyLang
