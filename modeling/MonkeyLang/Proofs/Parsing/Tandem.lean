import MonkeyLang.Proofs.Parsing.Meets

/-!
# Two parsers side by side

`Parser.Tandem` says of two parsers, each in a state of its own, that they end in the same way: both
with a result or both with a diagnostic, and a given property holds of the two.  Nothing is said if
one of them gives the parse up; so two parsers can be compared although they count their rounds and
their depth from different numbers.

As for a single parser, there is a rule for each way of putting parsers together.
-/

set_option autoImplicit false

namespace MonkeyLang

namespace Parser

variable {α β γ δ : Type}

/-- If neither parser gives up, both end in the same way, and the property for it holds. -/
def Tandem (first : Parser α) (second : Parser β) (s t : ParserState)
    (good : α → β → ParserState → ParserState → Prop)
    (bad : Diagnostic → Diagnostic → ParserState → ParserState → Prop) : Prop :=
  first.Meets s
    (fun a s' => second.Meets t (fun b t' => good a b s' t') (fun _ _ => False) fun _ => True)
    (fun d s' => second.Meets t (fun _ _ => False) (fun e t' => bad d e s' t') fun _ => True)
    fun _ => True

namespace Tandem

variable {first : Parser α} {second : Parser β} {s t : ParserState}
  {good good' : α → β → ParserState → ParserState → Prop}
  {bad bad' : Diagnostic → Diagnostic → ParserState → ParserState → Prop}

theorem mono (h : Tandem first second s t good bad)
    (hgood : ∀ a b s' t', good a b s' t' → good' a b s' t')
    (hbad : ∀ d e s' t', bad d e s' t' → bad' d e s' t') :
    Tandem first second s t good' bad' :=
  Meets.mono h
    (fun a s' ht => ht.mono (fun b t' => hgood a b s' t') (fun _ _ => id) fun _ => id)
    (fun d s' ht => ht.mono (fun _ _ => id) (fun e t' => hbad d e s' t') fun _ => id)
    fun _ => id

theorem pure {a : α} {b : β} (h : good a b s t) :
    Tandem (Pure.pure a) (Pure.pure b) s t good bad := h

theorem fail {fault fault' : Fault} {token token' : Token}
    (h : bad (.on fault token) (.on fault' token') s t) :
    Tandem (fail fault token) (fail fault' token') s t good bad := h

theorem giveUp_left (cause : Abort) : Tandem (giveUp cause) second s t good bad := True.intro

theorem giveUp_right (cause : Abort) : Tandem first (giveUp cause : Parser β) s t good bad :=
  Meets.mono (Gives.trivial first s) (fun _ _ _ => True.intro) (fun _ _ _ => True.intro)
    fun _ => id

theorem bind {next : α → Parser γ} {next' : β → Parser δ}
    {good' : γ → δ → ParserState → ParserState → Prop} (h : Tandem first second s t good bad)
    (h' : ∀ a b s' t', good a b s' t' → Tandem (next a) (next' b) s' t' good' bad) :
    Tandem (first >>= next) (second >>= next') s t good' bad := by
  refine meets_bind.2 (Meets.mono h (fun a s' ht => ?_) (fun d s' ht => ?_) fun _ => id)
  · -- the second parser has a result, unless it gives up
    unfold Meets at ht
    split at ht
    · rename_i b t' hrun
      refine Meets.mono (h' a b s' t' ht) (fun c s'' hc => meets_bind.2 ?_)
        (fun d s'' hd => meets_bind.2 ?_) fun _ => id
      · rw [Meets, hrun]
        exact hc
      · rw [Meets, hrun]
        exact hd
    · exact ht.elim
    · rename_i cause t' hrun
      refine Meets.mono (Gives.trivial (next a) s') (fun c s'' _ => meets_bind.2 ?_)
        (fun d s'' _ => meets_bind.2 ?_) fun _ => id
      · rw [Meets, hrun]
        exact True.intro
      · rw [Meets, hrun]
        exact True.intro
  · exact meets_bind.2 (ht.mono (fun _ _ => False.elim) (fun _ _ => id) fun _ => id)

theorem ite {c c' : Prop} [Decidable c] [Decidable c'] {first' : Parser α} {second' : Parser β}
    (hsame : c' ↔ c) (h : c → Tandem first second s t good bad)
    (h' : ¬c → Tandem first' second' s t good bad) :
    Tandem (if c then first else first') (if c' then second else second') s t good bad := by
  by_cases hc : c
  · rw [if_pos hc, if_pos (hsame.2 hc)]
    exact h hc
  · rw [if_neg hc, if_neg fun hc' => hc (hsame.1 hc')]
    exact h' hc

/-- If the diagnostics of both go on record, both have no result. -/
theorem attempt {good : Option α → Option β → ParserState → ParserState → Prop}
    (h : Tandem first second s t (fun a b s' t' => good (some a) (some b) s' t')
      fun d e s' t' => good none none (s'.record d) (t'.record e)) :
    Tandem (attempt first) (attempt second) s t good bad :=
  meets_attempt.2 <| Meets.mono h
    (fun _ _ ht => meets_attempt.2 (ht.mono (fun _ _ => id) (fun _ _ => False.elim) fun _ => id))
    (fun _ _ ht => meets_attempt.2 (ht.mono (fun _ _ => False.elim) (fun _ _ => id) fun _ => id))
    fun _ => id

/-- Of two results the property holds. -/
theorem of_ok (h : Tandem first second s t good bad) {a : α} {b : β} {s' t' : ParserState}
    (hfirst : first s = .ok a s') (hsecond : second t = .ok b t') : good a b s' t' := by
  rw [Tandem, Meets, hfirst] at h
  simp only [Meets, hsecond] at h
  exact h

end Tandem

end Parser

end MonkeyLang
