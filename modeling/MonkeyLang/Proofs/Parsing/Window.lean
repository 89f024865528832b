import MonkeyLang.Parser.Basic
import MonkeyLang.Proofs.Scanning.Lexemes

/-!
# The window of a parser

What a parser sees is the current token and the upcoming one, at the front of the tokens that are
left.  The token that stands for the end of the text is behind all others.

* `TokenStream.Ended` says that it stands nowhere else.  In such a window a token of any other kind
  is really there (`TokenStream.Ended.ahead_eq`, `TokenStream.Ended.tail_eq`).
* `ParserState.Later` says that one state may come after another in a parse.
-/

set_option autoImplicit false

namespace MonkeyLang

/-! ## Windows -/

namespace TokenStream

variable {window : TokenStream}

theorem ahead_ne_nil (hlast : window.last.kind = .eof) (h : window.current.kind ≠ .eof) :
    window.ahead ≠ [] := by
  intro hnil
  rw [current, hnil] at h
  exact h hlast

theorem ahead_eq_cons (hlast : window.last.kind = .eof) (h : window.current.kind ≠ .eof) :
    window.ahead = window.current :: window.ahead.tail := by
  obtain ⟨token, rest, hahead⟩ := List.exists_cons_of_ne_nil (ahead_ne_nil hlast h)
  rw [current, hahead]
  rfl

theorem tail_ne_nil (hlast : window.last.kind = .eof) (h : window.upcoming.kind ≠ .eof) :
    window.ahead.tail ≠ [] := by
  intro hnil
  rw [upcoming, hnil] at h
  exact h hlast

theorem current_mem (h : window.ahead ≠ []) : window.current ∈ window.ahead := by
  obtain ⟨token, rest, hahead⟩ := List.exists_cons_of_ne_nil h
  rw [current, hahead]
  exact List.mem_cons_self

/-- The last token stands for the end of the text, and no other token does. -/
structure Ended (window : TokenStream) : Prop where
  last : window.last.kind = .eof
  ahead : ∀ token ∈ window.ahead, token.kind ≠ .eof

namespace Ended

theorem ahead_eq (h : window.Ended) (hkind : window.current.kind ≠ .eof) :
    window.ahead = window.current :: window.ahead.tail :=
  ahead_eq_cons h.last hkind

theorem tail_eq (h : window.Ended) (hkind : window.upcoming.kind ≠ .eof) :
    window.ahead.tail = window.upcoming :: window.ahead.tail.tail := by
  obtain ⟨token, rest, hahead⟩ := List.exists_cons_of_ne_nil (tail_ne_nil h.last hkind)
  rw [upcoming, hahead]
  rfl

theorem ahead_eq_nil (h : window.Ended) (hkind : window.current.kind = .eof) :
    window.ahead = [] :=
  Classical.byContradiction fun hne => h.ahead _ (current_mem hne) hkind

end Ended

/-- A text as a whole is such a window. -/
theorem ended_ofSource (source : String) : (ofSource source).Ended :=
  ⟨rfl, fun _ htoken => (Token.proper_of_mem_scanFrom htoken).eof⟩

end TokenStream

/-! ## States -/

namespace ParserState

/-- The state with the upcoming token made the current one. -/
def advance (state : ParserState) : ParserState :=
  { state with window := state.window.advance }

/-- The state after skipping to a semicolon, to a token of one of the kinds, or to the end. -/
def skip (kinds : List TokenKind) (state : ParserState) : ParserState :=
  { state with window.ahead := state.window.ahead.dropWhile fun token =>
      !(token.kind = .semicolon || token.kind ∈ kinds) }

@[simp] theorem ahead_advance (state : ParserState) :
    state.advance.window.ahead = state.window.ahead.tail := rfl

@[simp] theorem diagnostics_record (state : ParserState) (diagnostic : Diagnostic) :
    (state.record diagnostic).diagnostics = state.diagnostics ++ [diagnostic] := rfl

/-- One state may come later than another in a parse: tokens are consumed from the front, and
diagnostics are recorded behind those that are there. -/
structure Later (before after : ParserState) : Prop where
  last : after.window.last = before.window.last
  ahead : after.window.ahead <:+ before.window.ahead
  diagnostics : before.diagnostics <+: after.diagnostics

theorem Later.refl (state : ParserState) : Later state state :=
  ⟨rfl, List.suffix_refl _, List.prefix_refl _⟩

theorem Later.trans {first second third : ParserState} (h : Later first second)
    (h' : Later second third) : Later first third :=
  ⟨h'.last.trans h.last, h'.ahead.trans h.ahead, h.diagnostics.trans h'.diagnostics⟩

theorem later_advance (state : ParserState) : Later state state.advance :=
  ⟨rfl, List.tail_suffix _, List.prefix_refl _⟩

theorem later_record (state : ParserState) (diagnostic : Diagnostic) :
    Later state (state.record diagnostic) :=
  ⟨rfl, List.suffix_refl _, List.prefix_append _ _⟩

theorem later_skip (state : ParserState) (kinds : List TokenKind) :
    Later state (state.skip kinds) :=
  ⟨rfl, List.dropWhile_suffix _, List.prefix_refl _⟩

/-- Skipping that does not stop at a token of one of the kinds stops at a semicolon, if it stops at
all. -/
theorem skip_stops {state : ParserState} {kinds : List TokenKind} {token : Token}
    (h : token ∈ (state.skip kinds).window.ahead.head?) (hkind : token.kind ∉ kinds) :
    token.kind = .semicolon := by
  have hstop := List.head?_dropWhile_not
    (fun token : Token => !(token.kind = .semicolon || token.kind ∈ kinds)) state.window.ahead
  rw [show (state.window.ahead.dropWhile _).head? = some token from h] at hstop
  simpa [hkind] using hstop

theorem Later.ended {before after : ParserState} (h : Later before after)
    (hended : before.window.Ended) : after.window.Ended :=
  ⟨h.last ▸ hended.last, fun token htoken => hended.ahead token (h.ahead.subset htoken)⟩

end ParserState

end MonkeyLang
