import MonkeyLang.Proofs.Evaluation.Reword
import MonkeyLang.Proofs.Rendering.RoundTrip

/-!
# Rendering keeps the meaning

Rendering a program and parsing the text again gives all tokens new places, leaves out parentheses and
leading zeros, and adds parentheses and semicolons.  None of this can be seen when the program is
evaluated.

The reason is that both programs have the same gist: they are valid and equal but for their tokens, and
evaluation shows no more of a program than its gist (`seen_eq_of_gist`).
-/

set_option autoImplicit false

namespace MonkeyLang

/-- **Rendering keeps the meaning.**  Whatever a text is parsed as, with or without diagnostics, the
canonical text of it is parsed without one, as a program whose evaluation shows the same in every scope
of every heap and down to every depth. -/
theorem evaluate_render {source : String} {parsed : Parsed} (h : parse source = .ok parsed) :
    ∃ again, parse parsed.program.render = .ok again ∧ again.diagnostics = [] ∧
      ∀ (depth : Nat) (scope : ScopeId) (heap : Heap),
        seen (evaluate depth again.program scope heap) =
          seen (evaluate depth parsed.program scope heap) := by
  have hvalid := valid_of_parse h
  obtain ⟨again, hagain, hsilent, hskeletons⟩ := exists_parse_renderStatements hvalid
  have hgist := Node.gist_eq_of_skeletons (valid_of_parse hagain) hvalid hskeletons
  exact ⟨again, hagain, hsilent, fun depth scope heap => seen_eq_of_gist hgist rfl depth scope⟩

/-- Behind `let 5;`, which is refused, a function is bound that has parentheses and a leading zero in its
text.  It is shown without them. -/
theorem evaluate_render_function :
    let word (kind : TokenKind) (literal : String) (column : Int) : Token :=
      ⟨kind, literal, ⟨1, column⟩⟩
    let sum : Node := .binary (word .plus "+" 28)
      (.reference ⟨word .ident "x" 25, "x"⟩) "+" (.integer (word .int "07" 30) 7)
    let parsed : Parsed := ⟨[.binding (word .letWord "let" 8) ⟨word .ident "f" 12, "f"⟩ <|
      .function (word .function "fn" 16) [⟨word .ident "x" 19, "x"⟩] (word .lbrace "\x7b" 22)
        [.expression (word .lparen "(" 24) sum]], [⟨.expected .ident .int, ⟨1, 5⟩⟩]⟩
    parse "let 5; let f = fn(x) \x7b (x) + 07 \x7d" = .ok parsed ∧
      (∃ again, parse parsed.program.render = .ok again ∧ again.diagnostics = [] ∧
        ∀ (depth : Nat) (scope : ScopeId) (heap : Heap),
          seen (evaluate depth again.program scope heap) =
            seen (evaluate depth parsed.program scope heap)) ∧
      seen (evaluate 9 parsed.program 0 .initial) =
        (.ok (.null, "null"), #[(none, [("f", .function, "fn(x) \x7b\n(x + 7)\n\x7d")])]) := by
  intro word sum parsed
  have hparse : parse "let 5; let f = fn(x) \x7b (x) + 07 \x7d" = .ok parsed := rfl
  exact ⟨hparse, evaluate_render hparse, Prod.ext rfl (by decide +kernel)⟩

end MonkeyLang
