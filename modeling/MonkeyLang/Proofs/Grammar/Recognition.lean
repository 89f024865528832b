import MonkeyLang.Proofs.Grammar.Longest

/-!
# The parser recognizes the grammar

A text has no diagnostics exactly if it is derived from the grammar, and then its tree is that of a
derivation in which every expression is as long as the grammar allows (`parseTokens_recognizes`).

The parser knows nothing of strata: it has two tables and one loop with a threshold.  That its trees
are derivations is in `MonkeyLang.Proofs.Grammar.Soundness`.  That it accepts whatever can be derived
takes two steps: a derivation can be changed into one with settled statements
(`MonkeyLang.Proofs.Grammar.Greedy`), and such a derivation the parser follows
(`MonkeyLang.Proofs.Grammar.Completeness`).
-/

set_option autoImplicit false

namespace MonkeyLang

open MonkeyLang.Parser MonkeyLang.ParserState

/-- The parser reads settled derivations of a whole text, and nothing else without a diagnostic. -/
theorem Parser.program_follows {state : ParserState} (hs : state.window.Ended) {trees : List Node}
    (h : Derives Settled (.statements trees) state.window.ahead []) :
    (program .standard).Succeeds state fun found after =>
      found = trees ∧ after.diagnostics = state.diagnostics := by
  rw [program, withParts, Succeeds, meets_bind, meets_remaining, meets_bind, meets_remaining]
  exact Succeeds.mono (h.follow _ _ [] state (by rintro _ ⟨⟩) (by rintro _ ⟨⟩) hs rfl)
    fun found after hafter => ⟨hafter.1, hafter.2.2.1⟩

/-- **A text has no diagnostics exactly if it is derived from the grammar**, and the tree that it is
read as is that of a derivation of the whole text with the longest expressions. -/
theorem parseTokens_recognizes {window : TokenStream} (hended : window.Ended)
    (hlegible : ∀ token ∈ window.ahead, token.Legible) :
    ∃ parsed, parseTokens window = .ok parsed ∧
      (parsed.diagnostics = [] ↔
        ∃ trees, Derives Anywhere (.statements trees) window.ahead []) ∧
      (parsed.diagnostics = [] →
        Derives Longest (.statements parsed.statements) window.ahead []) := by
  let start : ParserState := { window }
  have hnone : EndsList [] := by rintro _ ⟨⟩
  have hends := @program_meets _ Grammar.tame_standard start hended.last hlegible
  have hsound := @program_sound start hended
  -- a derivation, if there is one, tells how the text is read
  have hcomplete : (program .standard).Meets start
      (fun _ after => (∃ trees, Derives Anywhere (.statements trees) window.ahead []) →
        after.diagnostics = [])
      (fun _ _ => ¬∃ trees, Derives Anywhere (.statements trees) window.ahead [])
      (fun _ => True) := by
    by_cases hderives : ∃ trees, Derives Anywhere (.statements trees) window.ahead []
    · obtain ⟨trees, htrees⟩ := hderives
      obtain ⟨trees', hsettled⟩ := htrees.exists_settled
      exact Meets.mono (@program_follows start hended trees' hsettled) (fun _ _ h _ => h.2)
        (fun _ _ => False.elim) fun _ => id
    · exact Meets.mono (Gives.trivial _ start) (fun _ _ _ h => absurd h hderives)
        (fun _ _ _ => hderives) fun _ => id
  obtain ⟨parsed, hparsed, houtcome⟩ := exists_parsed <|
    Meets.mono (hends.and (hsound.and hcomplete)) (fun _ _ => id) (fun _ _ => id) fun _ h => h.1
  refine ⟨parsed, hparsed, ?_⟩
  rcases houtcome with ⟨after, ⟨-, hreads, hsilent⟩, hdiagnostics⟩ | ⟨diagnostic, after, hbad, rfl⟩
  · have hsettled (hclean : parsed.diagnostics = []) :
        Derives Settled (.statements parsed.statements) window.ahead [] := by
      refine hreads.2.resolve_left fun hlt => ?_
      rw [← hdiagnostics, hclean] at hlt
      exact absurd hlt (Nat.not_lt_zero _)
    refine ⟨⟨fun hclean => ⟨_, (hsettled hclean).relimit (fun _ _ _ _ _ _ _ => True.intro)
      (List.suffix_refl _) hnone⟩, fun hderives => hdiagnostics ▸ hsilent hderives⟩,
      fun hclean => (hsettled hclean).longest hnone fun token htoken =>
        ⟨hended.ahead token htoken, hlegible token htoken⟩⟩
  · have hne : after.diagnostics ++ [diagnostic] ≠ [] := List.append_ne_nil_of_right_ne_nil _ (by simp)
    exact ⟨⟨fun hclean => absurd hclean hne, fun hderives => absurd hderives hbad.2.2⟩,
      fun hclean => absurd hclean hne⟩

/-- In `a -1` the minus continues the expression. -/
theorem parseTokens_recognizes_minus :
    let minus : TokenStream :=
      ⟨[⟨.ident, "a", {}⟩, ⟨.minus, "-", {}⟩, ⟨.int, "1", {}⟩], ⟨.eof, "", {}⟩⟩
    minus.Ended ∧ (∀ token ∈ minus.ahead, token.Legible) ∧
      ∃ parsed, parseTokens minus = .ok parsed ∧
        (parsed.diagnostics = [] ↔
          ∃ trees, Derives Anywhere (.statements trees) minus.ahead []) ∧
        (parsed.diagnostics = [] →
          Derives Longest (.statements parsed.statements) minus.ahead []) := by
  intro minus
  have hended : minus.Ended := ⟨rfl, by decide⟩
  have hlegible : ∀ token ∈ minus.ahead, token.Legible :=
    List.forall_mem_cons.2 ⟨by decide, List.forall_mem_cons.2 ⟨by decide,
      List.forall_mem_singleton.2 (by decide)⟩⟩
  exact ⟨hended, hlegible, parseTokens_recognizes hended hlegible⟩

end MonkeyLang
