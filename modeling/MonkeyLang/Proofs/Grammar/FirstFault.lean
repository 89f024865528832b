import MonkeyLang.Proofs.Grammar.Promptness
import MonkeyLang.Proofs.Grammar.Recognition

/-!
# The first diagnostic is exact

The first diagnostic of a text points at the first token that no text without diagnostics can have there
(`parseTokens_correct_prefix`).  The tokens before it are the beginning of such a text, and with it they
are not, for every text that begins with all of them has that very diagnostic, too.

Only the parser of whole programs has to be looked at here.  The beginning that it has read can be
completed to the tokens of a program, which are derived from the grammar and so have no diagnostics; and
texts that agree up to some token agree for all that has been looked at when it is reported.
-/

set_option autoImplicit false

namespace MonkeyLang

open MonkeyLang.Parser MonkeyLang.ParserState

/-- What holds up to the first diagnostic, holds of the outcome of a text. -/
theorem Parser.Until.of_parsed {window : TokenStream} {good : List Node → ParserState → Prop}
    {bad : Diagnostic → Prop} (h : (program .standard).Until { window } good bad) {parsed : Parsed}
    (hparsed : parseTokens window = .ok parsed) :
    (∃ trees after, good trees after ∧ parsed.diagnostics = after.diagnostics) ∨
      ∃ d, parsed.diagnostics.head? = some d ∧ bad d := by
  have hhead {d : Diagnostic} {diagnostics : List Diagnostic}
      (hreports : Reports { window } d diagnostics) : diagnostics.head? = some d := by
    obtain ⟨others, rfl⟩ := hreports
    rfl
  unfold Until Meets at h
  unfold parseTokens settle at hparsed
  cases hrun : program .standard { window } with
  | ok trees after =>
    rw [hrun] at h hparsed
    cases hparsed
    rcases h with hgood | ⟨d, hreports, hbad⟩
    · exact .inl ⟨trees, after, hgood, rfl⟩
    · exact .inr ⟨d, hhead hreports, hbad⟩
  | error stop after =>
    rw [hrun] at h hparsed
    cases stop with
    | malformed diagnostic =>
      cases hparsed
      obtain ⟨d, hreports, hbad⟩ := h
      exact .inr ⟨d, hhead hreports, hbad⟩
    | abort cause => cases hparsed

/-! ## Tokens of a text by number -/

namespace TokenStream

variable {window other : TokenStream} {count : Nat}

theorem nth_eq_of_toList {token : Token} {index : Nat} (h : window.toList[index]? = some token) :
    window.nth index = token := by
  rw [toList, List.getElem?_append] at h
  rw [nth]
  split at h
  · rw [h, Option.getD_some]
  · rename_i hindex
    rw [List.getElem?_eq_none (Nat.le_of_not_lt hindex), Option.getD_none]
    exact (List.mem_singleton.1 (List.mem_of_getElem? h)).symm

theorem toList_min (window : TokenStream) (count : Nat) :
    window.toList[min count window.ahead.length]? = some (window.nth count) := by
  rcases Nat.lt_or_ge count window.ahead.length with hlt | hge
  · rw [Nat.min_eq_left (Nat.le_of_lt hlt), toList, List.getElem?_append_left hlt, nth,
      List.getElem?_eq_getElem hlt, Option.getD_some]
  · rw [Nat.min_eq_right hge, toList, List.getElem?_concat_length, nth, List.getElem?_eq_none hge,
      Option.getD_none]

/-- Where the one text ends, the other one ends, too. -/
theorem Ended.eq_of_prefix (h : window.Ended) (h' : other.Ended)
    (hbegins : window.toList <+: other.toList) : other = window := by
  rcases List.prefix_concat_iff.1 hbegins with hsame | hinside
  · obtain ⟨hahead, hlast⟩ := List.append_inj' hsame rfl
    cases window
    cases other
    simp_all
  · have hmem : window.last ∈ other.ahead :=
      hinside.subset (List.mem_append_right _ (List.mem_singleton_self _))
    exact absurd h.last (h'.ahead _ hmem)

/-- The tokens up to the one with a number, or all of them if there are not so many, decide about the
tokens that are consumed. -/
theorem Ended.agrees (h : window.Ended) (h' : other.Ended)
    (hsame : other.toList.take (min count window.ahead.length + 1) =
      window.toList.take (min count window.ahead.length + 1)) :
    Agrees { window } { window := other } (count + 1) := by
  intro index hindex
  rcases Nat.lt_or_ge window.ahead.length index with hbehind | hinside
  · -- the text is at its end before
    have hlength : window.toList.length ≤ min count window.ahead.length + 1 := by
      rw [toList, List.length_append, List.length_singleton]
      omega
    rw [List.take_of_length_le hlength] at hsame
    rw [h.eq_of_prefix h' (hsame ▸ List.take_prefix _ _)]
  · have hlength : index < window.toList.length := by
      rw [toList, List.length_append, List.length_singleton]
      omega
    have htoken := List.getElem?_eq_getElem hlength
    have htoken' : other.toList[index]? = window.toList[index]? := by
      have hlt : index < min count window.ahead.length + 1 := by omega
      rw [← List.getElem?_take_of_lt hlt, hsame, List.getElem?_take_of_lt hlt]
    exact (nth_eq_of_toList htoken).trans (nth_eq_of_toList (htoken'.trans htoken)).symm

end TokenStream

/-! ## The first diagnostic -/

/-- What is derived from the grammar has no diagnostics. -/
theorem exists_parsed_of_derives {window : TokenStream} (hended : window.Ended)
    (hlegible : ∀ token ∈ window.ahead, token.Legible) {trees : List Node}
    (h : Derives Anywhere (.statements trees) window.ahead []) :
    ∃ parsed, parseTokens window = .ok parsed ∧ parsed.diagnostics = [] := by
  let start : ParserState := { window }
  obtain ⟨trees', hsettled⟩ := h.exists_settled
  have hends := @program_meets _ Grammar.tame_standard start hended.last hlegible
  have hfollows := @program_follows start hended trees' hsettled
  obtain ⟨parsed, hparsed, houtcome⟩ := exists_parsed <|
    Meets.mono (hends.and hfollows) (fun _ _ => id) (fun _ _ => id) fun _ h => h.1
  rcases houtcome with ⟨after, ⟨-, -, hsilent⟩, hdiagnostics⟩ | ⟨_, _, ⟨-, hbad⟩, -⟩
  · exact ⟨parsed, hparsed, hdiagnostics.trans hsilent⟩
  · exact hbad.elim

/-- What stands before the tokens behind the first few is these few. -/
theorem eq_take_of_append_drop {tokens front : List Token} {count : Nat}
    (h : tokens = front ++ tokens.drop count) : front = tokens.take count := by
  have hsplit : front ++ tokens.drop count = tokens.take count ++ tokens.drop count := by
    rw [List.take_append_drop, ← h]
  exact List.append_cancel_right hsplit

/-- Tokens that are the beginning of a program are the beginning of a text without diagnostics. -/
theorem exists_silent_of_begun {window : TokenStream} (hended : window.Ended)
    (hlegible : ∀ token ∈ window.ahead, token.Legible) {count : Nat}
    (hbegun : Construct.statements.Begun window.ahead (window.ahead.drop count)) :
    ∃ other : TokenStream, other.Ended ∧ (∀ token ∈ other.ahead, token.Legible) ∧
      window.toList.take (min count window.ahead.length) <+: other.toList ∧
      ∃ parsed, parseTokens other = .ok parsed ∧ parsed.diagnostics = [] := by
  obtain ⟨front, filling, hsplit, hfilling, hbehind⟩ := hbegun
  have hfront := eq_take_of_append_drop hsplit
  have hmem (token : Token) (h : token ∈ front ++ filling) :
      token ∈ window.ahead ∨ token ∈ filling :=
    (List.mem_append.1 h).imp_left fun h => List.mem_of_mem_take (hfront ▸ h)
  have hended' : TokenStream.Ended ⟨front ++ filling, window.last⟩ :=
    ⟨hended.last, fun token h => (hmem token h).elim (hended.ahead token) fun h =>
      (hfilling token h).1⟩
  -- no integer is filled in, so whatever is filled in is legible
  have hlegible' (token : Token) (h : token ∈ front ++ filling) : token.Legible :=
    (hmem token h).elim (hlegible token) fun h hint => absurd hint (hfilling token h).2
  obtain ⟨trees, htrees⟩ := hbehind []
  rw [List.append_nil] at htrees
  refine ⟨⟨front ++ filling, window.last⟩, hended', hlegible', ?_,
    exists_parsed_of_derives hended' hlegible' htrees⟩
  have htake : window.ahead.take (min count window.ahead.length) = front := by
    rw [hfront, List.take_eq_take_iff, Nat.min_assoc, Nat.min_self]
  rw [TokenStream.toList, TokenStream.toList, List.take_append_of_le_length (Nat.min_le_right _ _),
    htake, List.append_assoc]
  exact List.prefix_append _ _

/-- What stands before the first diagnostic is the beginning of a program. -/
theorem rejects_of_parsed {window : TokenStream} (hended : window.Ended) {parsed : Parsed}
    (hparsed : parseTokens window = .ok parsed) {diagnostic : Diagnostic}
    (hfirst : parsed.diagnostics.head? = some diagnostic) :
    Rejects 0 .statements (fun _ : Unit => program .standard) { window } diagnostic := by
  rcases Until.of_parsed (program_prompt.run { window } hended True.intro) hparsed with
    ⟨_, after, ⟨-, _, -, rfl, -⟩, hnone⟩ | ⟨d, hd, hrejects⟩
  · rw [hnone] at hfirst
    cases hfirst
  · exact Option.some.inj (hfirst.symm.trans hd) ▸ hrejects

/-- **The first diagnostic is exact.**  It points at a token such that the tokens before it are the
beginning of a text without diagnostics, and every text that has the same tokens up to and including it
has the same first diagnostic. -/
theorem parseTokens_correct_prefix {window : TokenStream} (hended : window.Ended)
    (hlegible : ∀ token ∈ window.ahead, token.Legible) {parsed : Parsed}
    (hparsed : parseTokens window = .ok parsed) {diagnostic : Diagnostic}
    (hfirst : parsed.diagnostics.head? = some diagnostic) :
    ∃ index token fault, window.toList[index]? = some token ∧ diagnostic = .on fault token ∧
      (∃ other : TokenStream, other.Ended ∧ (∀ token ∈ other.ahead, token.Legible) ∧
        window.toList.take index <+: other.toList ∧
        ∃ parsed', parseTokens other = .ok parsed' ∧ parsed'.diagnostics = []) ∧
      ∀ other : TokenStream, other.Ended → (∀ token ∈ other.ahead, token.Legible) →
        other.toList.take (index + 1) = window.toList.take (index + 1) →
        ∃ parsed', parseTokens other = .ok parsed' ∧
          parsed'.diagnostics.head? = some diagnostic := by
  obtain ⟨count, fault, -, rfl, hbegun, hothers⟩ := rejects_of_parsed hended hparsed hfirst
  refine ⟨min count window.ahead.length, window.nth count, fault, window.toList_min count, rfl,
    exists_silent_of_begun hended hlegible hbegun, fun other hother hlegible' hsame => ?_⟩
  obtain ⟨parsed', hparsed'⟩ := parseTokens_isOk hother.last hlegible'
  refine ⟨parsed', hparsed', ?_⟩
  rcases Until.of_parsed (hothers () _ (hended.agrees hother hsame)) hparsed' with
    ⟨_, _, hfalse, -⟩ | ⟨d, hd, rfl⟩
  · exact hfalse.elim
  · exact hd

/-- In `let x 5` the first diagnostic points at the `5`, behind which anything may stand. -/
theorem parseTokens_correct_prefix_let :
    let window : TokenStream :=
      ⟨[⟨.letWord, "let", ⟨1, 1⟩⟩, ⟨.ident, "x", ⟨1, 5⟩⟩, ⟨.int, "5", ⟨1, 7⟩⟩], ⟨.eof, "", ⟨1, 8⟩⟩⟩
    let diagnostic : Diagnostic := ⟨.expected .assign .int, ⟨1, 7⟩⟩
    window.Ended ∧ (∀ token ∈ window.ahead, token.Legible) ∧
      ∃ parsed, parseTokens window = .ok parsed ∧ parsed.diagnostics.head? = some diagnostic ∧
        ∃ index token fault, window.toList[index]? = some token ∧ diagnostic = .on fault token ∧
          (∃ other : TokenStream, other.Ended ∧ (∀ token ∈ other.ahead, token.Legible) ∧
            window.toList.take index <+: other.toList ∧
            ∃ parsed', parseTokens other = .ok parsed' ∧ parsed'.diagnostics = []) ∧
          ∀ other : TokenStream, other.Ended → (∀ token ∈ other.ahead, token.Legible) →
            other.toList.take (index + 1) = window.toList.take (index + 1) →
            ∃ parsed', parseTokens other = .ok parsed' ∧
              parsed'.diagnostics.head? = some diagnostic := by
  intro window diagnostic
  have hended : window.Ended := ⟨rfl, by decide⟩
  have hlegible : ∀ token ∈ window.ahead, token.Legible :=
    List.forall_mem_cons.2 ⟨by decide, List.forall_mem_cons.2 ⟨by decide,
      List.forall_mem_singleton.2 (by decide)⟩⟩
  have hparsed : parseTokens window = .ok ⟨[], [diagnostic]⟩ := by rfl
  exact ⟨hended, hlegible, _, hparsed, rfl, parseTokens_correct_prefix hended hlegible hparsed rfl⟩

end MonkeyLang
