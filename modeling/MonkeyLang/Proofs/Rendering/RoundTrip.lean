import MonkeyLang.Proofs.Grammar.Recognition
import MonkeyLang.Proofs.Parsing.Recovery
import MonkeyLang.Proofs.Rendering.Derivation

/-!
# Rendering and parsing are inverse to each other

A valid program is rendered as a text that is parsed without a diagnostic, and as that program but for
the tokens.  And whatever text is parsed, what is recovered from it is a valid program; so rendering
it and parsing it again changes nothing any more (`parse_render`).

The first half is put together from what the canonical text is derived from
(`Node.readableStatements`) and from what the parser does with derived tokens
(`Parser.program_follows`).  The second half is about all texts, with or without malformed statements
(`valid_of_parse`).
-/

set_option autoImplicit false

namespace MonkeyLang

/-- The tree is one of a program. -/
def Node.ValidProgram : Node → Prop
  | program statements => ValidStatements statements
  | _ => False

/-- A text whose tokens are derived from statements, and legible, is parsed as the statements. -/
theorem parse_of_written {source : String} {trees : List Node}
    (h : Written (.statements trees) (Token.scan source.toList) []) :
    parse source = .ok ⟨trees, []⟩ := by
  let start : ParserState := { window := .ofSource source }
  have hended : start.window.Ended := TokenStream.ended_ofSource _
  have hlegible : ∀ token ∈ start.window.ahead, token.Legible := h.legible (by rintro _ ⟨⟩)
  have hends := @Parser.program_meets _ Grammar.tame_standard start rfl hlegible
  have hfollows := @Parser.program_follows start hended trees h.derives
  obtain ⟨⟨found, diagnostics⟩, hparsed, ⟨after, hgood, hdiagnostics⟩ | ⟨_, _, hbad, _⟩⟩ :=
    Parser.exists_parsed ((hfollows.and hends).mono (fun _ _ => id) (fun _ _ => id)
      fun _ => And.right)
  · obtain ⟨⟨htrees, hsilent⟩, -⟩ := hgood
    obtain rfl : found = trees := htrees
    obtain rfl : diagnostics = [] := hdiagnostics.trans hsilent
    exact hparsed
  · exact hbad.1.elim

/-- The canonical text of valid statements is parsed as the statements, without a diagnostic. -/
theorem exists_parse_renderStatements {statements : List Node}
    (h : Node.ValidStatements statements) :
    ∃ parsed, parse (Node.renderStatements statements) = .ok parsed ∧ parsed.diagnostics = [] ∧
      Node.skeletons parsed.statements = Node.skeletons statements := by
  obtain ⟨trees, place, hskeletons, hwritten⟩ := Node.readableStatements statements h []
    (by rintro _ ⟨⟩) (fun _ => by rintro _ ⟨⟩) {}
  rw [List.append_nil] at hwritten
  exact ⟨⟨trees, []⟩, parse_of_written hwritten, rfl, hskeletons⟩

/-- **Rendering and parsing are inverse to each other.**  A valid program is the one that its
canonical text is parsed as, up to the tokens; and every program that is recovered from a text is
valid, so parsing its canonical text gives the same program again and no diagnostic. -/
theorem parse_render :
    (∀ tree : Node, tree.ValidProgram → ∃ parsed, parse tree.render = .ok parsed ∧
      parsed.diagnostics = [] ∧ parsed.program.skeleton = tree.skeleton ∧
      parsed.program.render = tree.render) ∧
    (∀ (source : String) (parsed : Parsed), parse source = .ok parsed →
      parsed.program.ValidProgram ∧ ∃ again, parse parsed.program.render = .ok again ∧
        again.diagnostics = [] ∧ again.program.skeleton = parsed.program.skeleton ∧
        again.program.render = parsed.program.render) := by
  have hround : ∀ tree : Node, tree.ValidProgram → ∃ parsed, parse tree.render = .ok parsed ∧
      parsed.diagnostics = [] ∧ parsed.program.skeleton = tree.skeleton ∧
      parsed.program.render = tree.render := by
    intro tree h
    cases tree with
    | program statements =>
      obtain ⟨parsed, hparsed, hdiagnostics, hskeletons⟩ := exists_parse_renderStatements h
      refine ⟨parsed, hparsed, hdiagnostics, congrArg Node.program hskeletons, ?_⟩
      exact Node.renderStatements_eq_of_skeletons _ _ (valid_of_parse hparsed) h hskeletons
    | _ => exact h.elim
  refine ⟨hround, fun source parsed hparsed => ?_⟩
  have hvalid : parsed.program.ValidProgram := valid_of_parse hparsed
  exact ⟨hvalid, hround _ hvalid⟩

/-- Behind `let 5;` the parser recovers `1`. -/
theorem parse_render_recovered :
    let tree : Node := .program [.expression ⟨.bang, "!", {}⟩
      (.unary ⟨.bang, "!", {}⟩ "!" (.reference ⟨⟨.ident, "a", {}⟩, "a"⟩))]
    let recovered : Parsed := ⟨[.expression ⟨.int, "1", ⟨1, 8⟩⟩ (.integer ⟨.int, "1", ⟨1, 8⟩⟩ 1)],
      [⟨.expected .ident .int, ⟨1, 5⟩⟩]⟩
    tree.ValidProgram ∧ parse "let 5; 1" = .ok recovered ∧
      (∃ parsed, parse tree.render = .ok parsed ∧ parsed.diagnostics = [] ∧
        parsed.program.skeleton = tree.skeleton ∧ parsed.program.render = tree.render) ∧
      ∃ again, parse recovered.program.render = .ok again ∧ again.diagnostics = [] ∧
        again.program.skeleton = recovered.program.skeleton ∧
        again.program.render = recovered.program.render := by
  intro tree recovered
  have htree : tree.ValidProgram :=
    ⟨⟨by decide, by decide, List.all_eq_true.1 (by decide), by decide⟩, True.intro⟩
  have hparse : parse "let 5; 1" = .ok recovered := rfl
  exact ⟨htree, hparse, parse_render.1 tree htree, (parse_render.2 _ _ hparse).2⟩

end MonkeyLang
