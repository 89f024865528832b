import MonkeyLang.Proofs.Scanning.LongestMatch
import MonkeyLang.Proofs.Scanning.Spaced
import MonkeyLang.Text.Newline

/-!
# Tokens do not depend on how lines end

A carriage return and a line feed are both spaces, and a space ends whatever token is before it.  So a text
has the same tokens, kind by kind and text by text, however its line ends are written
(`Token.map_unplaced_scanFrom_unifyNewlines`).

Only a line feed begins a new line.  Where each carriage return has a line feed behind it, the carriage
returns stand at the ends of their lines, with no token behind them on the line, and so the tokens even stand
at the same places (`Token.scanFrom_unifyNewlines`).
-/

set_option autoImplicit false

namespace MonkeyLang

namespace Text

/-! ## Unified line ends -/

/-- Behind each carriage return there is a line feed. -/
def Paired (text : List Char) : Prop :=
  ∀ front rest, text = front ++ '\r' :: rest → rest.head? = some '\n'

theorem Paired.of_append {front text : List Char} (h : Paired (front ++ text)) : Paired text := by
  rintro front' rest rfl
  exact h (front ++ front') rest (List.append_assoc front front' _).symm

theorem Paired.of_cons {c : Char} {text : List Char} (h : Paired (c :: text)) : Paired text :=
  @of_append [c] text h

theorem paired_cons {c : Char} {text : List Char} :
    Paired (c :: text) ↔ (c = '\r' → text.head? = some '\n') ∧ Paired text := by
  constructor
  · intro h
    exact ⟨fun hc => h [] text (hc ▸ rfl), h.of_cons⟩
  · rintro ⟨hc, htext⟩ (_ | ⟨d, front⟩) rest heq
    · obtain ⟨rfl, rfl⟩ := List.cons.inj heq
      exact hc rfl
    · exact htext front rest (List.cons.inj heq).2

instance decidablePaired : ∀ text : List Char, Decidable (Paired text)
  | [] => isTrue fun front rest h => by cases front <;> cases h
  | _ :: text =>
    have := decidablePaired text
    decidable_of_iff _ paired_cons.symm

theorem unifyNewlines_cons {c : Char} (hc : c ≠ '\r') (text : List Char) :
    unifyNewlines (c :: text) = c :: unifyNewlines text := by
  rw [unifyNewlines]
  · rintro _ rfl
    exact absurd rfl hc
  · exact hc

theorem unifyNewlines_append {front : List Char} (h : '\r' ∉ front) (text : List Char) :
    unifyNewlines (front ++ text) = front ++ unifyNewlines text := by
  induction front with
  | nil => rfl
  | cons c front ih =>
    obtain ⟨hc, hfront⟩ := not_or.1 (mt List.mem_cons.2 h)
    rw [List.cons_append, unifyNewlines_cons (Ne.symm hc), ih hfront, List.cons_append]

/-- A text begins alike, up to the first space, however its lines end. -/
theorem takeWhile_unifyNewlines {p : Char → Bool} (hreturn : p '\r' = false) (hfeed : p '\n' = false)
    (text : List Char) : (unifyNewlines text).takeWhile p = text.takeWhile p := by
  fun_induction unifyNewlines text with
  | case1 => rfl
  | case2 rest _ | case3 rest _ _ => simp [hreturn, hfeed]
  | case4 c rest _ _ ih => rw [List.takeWhile_cons, List.takeWhile_cons, ih]

end Text

namespace Token

open Text

/-! ## Tokens -/

theorem lexeme_unifyNewlines (c : Char) (rest : List Char) :
    lexeme c (unifyNewlines rest) = lexeme c rest := by
  have hpair : (unifyNewlines rest).head?.bind (TokenKind.ofPair? c) =
      rest.head?.bind (TokenKind.ofPair? c) := by
    have hnone (d : Char) (hd : isSpace d = true) : TokenKind.ofPair? c d = none :=
      (classes_of_isSpace hd).2.2 c
    fun_cases unifyNewlines rest with
    | case1 => rfl
    | case2 rest => exact (hnone '\n' rfl).trans (hnone '\r' rfl).symm
    | case3 rest _ => exact (hnone '\n' rfl).trans (hnone '\r' rfl).symm
    | case4 d rest _ _ => rfl
  rw [lexeme, lexeme, takeWhile_unifyNewlines rfl rfl, takeWhile_unifyNewlines rfl rfl, hpair]

/-- No space belongs to a token. -/
theorem Lexeme.isSpace_eq_false {c d : Char} {rest cs : List Char} {kind : TokenKind}
    (h : Lexeme c rest kind (c :: cs)) (hd : d ∈ cs) : isSpace d = false := by
  refine Bool.eq_false_iff.2 fun hspace => ?_
  obtain ⟨hdigit, hletter, hpair⟩ := classes_of_isSpace hspace
  cases h with
  | integer _ => rw [of_mem_takeWhile hd] at hdigit; cases hdigit
  | word _ _ => rw [of_mem_takeWhile hd] at hletter; cases hletter
  | pair _ _ _ hkind =>
    obtain rfl := List.mem_singleton.1 hd
    rw [hpair c] at hkind
    cases hkind
  | single _ _ _ => cases hd

/-- A text ends, or begins with a line end, another space or a token. -/
theorem text_induction {motive : List Char → Prop} (nil : motive [])
    (pair : ∀ rest, motive rest → motive ('\r' :: '\n' :: rest))
    (lone : ∀ rest, rest.head? ≠ some '\n' → motive rest → motive ('\r' :: rest))
    (space : ∀ c rest, isSpace c = true → c ≠ '\r' → motive rest → motive (c :: rest))
    (token : ∀ c cs rest kind, isSpace c = false → '\r' ∉ c :: cs →
      lexeme c (cs ++ rest) = (kind, cs.length) → motive rest → motive (c :: cs ++ rest)) :
    ∀ text, motive text
  | [] => nil
  | c :: rest => by
    by_cases hreturn : c = '\r'
    · subst hreturn
      by_cases hfeed : rest.head? = some '\n'
      · obtain ⟨rest, rfl⟩ := List.head?_eq_some_iff.1 hfeed
        exact pair rest (text_induction nil pair lone space token rest)
      · exact lone rest hfeed (text_induction nil pair lone space token rest)
    by_cases hspace : isSpace c = true
    · exact space c rest hspace hreturn (text_induction nil pair lone space token rest)
    · obtain ⟨cs, tail, kind, rfl, hlexeme, -⟩ := exists_cut c rest
      have htext := lexeme_cases c (cs ++ tail)
      rw [hlexeme, List.take_left] at htext
      have hcs : '\r' ∉ c :: cs := by
        rw [List.mem_cons, not_or]
        exact ⟨Ne.symm hreturn, fun hmem => nomatch htext.isSpace_eq_false hmem⟩
      exact token c cs tail kind (Bool.eq_false_iff.2 hspace) hcs hlexeme
        (text_induction nil pair lone space token tail)
termination_by text => text.length

/-- A token is read off a text however the lines behind it end. -/
theorem scanFrom_unifyNewlines_append {c : Char} {cs rest : List Char} {kind : TokenKind}
    (hspace : isSpace c = false) (hreturn : '\r' ∉ c :: cs)
    (hlexeme : lexeme c (cs ++ rest) = (kind, cs.length)) (place : Position) :
    scanFrom 0 place (unifyNewlines (c :: cs ++ rest)) =
      ⟨kind, String.ofList (c :: cs), place⟩ ::
        scanFrom 0 (place.afterAll (c :: cs)) (unifyNewlines rest) := by
  obtain ⟨-, hcs⟩ := not_or.1 (mt List.mem_cons.2 hreturn)
  rw [unifyNewlines_append hreturn, scanFrom_append_of_lexeme hspace]
  rw [← unifyNewlines_append hcs, lexeme_unifyNewlines, hlexeme]

/-- The same tokens are read off a text however its lines end. -/
theorem map_unplaced_scanFrom_unifyNewlines (text : List Char) : ∀ place place' : Position,
    (scanFrom 0 place (unifyNewlines text)).map unplaced = (scanFrom 0 place' text).map unplaced := by
  induction text using text_induction with
  | nil => exact fun _ _ => rfl
  | pair rest ih => exact fun place place' => ih _ _
  | lone rest hrest ih =>
    intro place place'
    rw [unifyNewlines]
    · exact ih _ _
    · rintro tail rfl
      exact hrest rfl
  | space c rest hspace hreturn ih =>
    intro place place'
    rw [unifyNewlines_cons hreturn, scanFrom_cons, if_pos hspace, scanFrom_cons, if_pos hspace]
    exact ih _ _
  | token c cs rest kind hspace hreturn hlexeme ih =>
    intro place place'
    rw [scanFrom_unifyNewlines_append hspace hreturn hlexeme,
      scanFrom_append_of_lexeme hspace hlexeme, List.map_cons, List.map_cons, ih]
    rfl

/-- The tokens stand at the same places if there are no carriage returns but before line feeds. -/
theorem scanFrom_unifyNewlines {text : List Char} (h : Paired text) : ∀ place : Position,
    scanFrom 0 place (unifyNewlines text) = scanFrom 0 place text := by
  induction text using text_induction with
  | nil => exact fun _ => rfl
  | pair rest ih => exact fun place => ih h.of_cons.of_cons _
  | lone rest hrest ih => exact absurd (h [] rest rfl) hrest
  | space c rest hspace hreturn ih =>
    intro place
    rw [unifyNewlines_cons hreturn, scanFrom_cons, if_pos hspace, scanFrom_cons, if_pos hspace]
    exact ih h.of_cons _
  | token c cs rest kind hspace hreturn hlexeme ih =>
    intro place
    rw [scanFrom_unifyNewlines_append hspace hreturn hlexeme,
      scanFrom_append_of_lexeme hspace hlexeme, ih h.of_append]

end Token

/-- And so does the end of the text. -/
theorem Position.afterAll_unifyNewlines {text : List Char} (h : Text.Paired text) :
    ∀ place : Position, place.afterAll (Text.unifyNewlines text) = place.afterAll text := by
  fun_induction Text.unifyNewlines text with
  | case1 => exact fun _ => rfl
  | case2 rest ih => exact fun place => ih h.of_cons.of_cons (place.after '\n')
  | case3 rest hrest _ =>
    obtain ⟨tail, rfl⟩ := List.head?_eq_some_iff.1 (h [] rest rfl)
    exact absurd rfl (hrest tail)
  | case4 c rest _ _ ih => exact fun place => ih h.of_cons (place.after c)

end MonkeyLang
