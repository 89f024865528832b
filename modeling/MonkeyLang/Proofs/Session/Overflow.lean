import MonkeyLang.Proofs.Evaluation.Confinement
import MonkeyLang.Proofs.Rendering.Validity
import MonkeyLang.Proofs.Session.Script

/-!
# Runaway recursion in a session

A line of a session may recurse without an end.  Then its evaluation is given up at some depth, and nothing
is undone: the statements before the one that runs away are done, those behind it are not begun, and of
that one statement nothing is left in the scopes that were there before but bindings of its own names.  The
session goes on with what is left.

* `Evaluator.statements_error` finds the statement that runs away, and the values before it.
* A line that is evaluated is none of the words that a session takes for something else: the text of such a
  word does not run away (`Derives.refers`, `Session.trim_notMem_of_overflow`).
* `Session.continueWith_overflow` is the statement about a session.
-/

set_option autoImplicit false

namespace MonkeyLang

/-! ## The statement that is given up -/

namespace Evaluation

variable {α β : Type} {evaluation : Evaluation α} {next : α → Evaluation β} {heap after : Heap}
  {cause : Halt}

/-- What is given up is given up in its first step or behind it. -/
theorem of_bind_error (h : (evaluation >>= next) heap = .error cause after) :
    evaluation heap = .error cause after ∨
      ∃ a middle, evaluation heap = .ok a middle ∧ next a middle = .error cause after := by
  simp only [Bind.bind, EStateM.bind] at h
  cases hrun : evaluation heap with
  | ok a middle =>
    rw [hrun] at h
    exact .inr ⟨a, middle, rfl, h⟩
  | error cause' middle =>
    rw [hrun] at h
    cases h
    exact .inl rfl

/-- Only behind a plain value can anything be given up. -/
theorem of_andThen_error {value : Value} {next : Value → Evaluation Value}
    (h : andThen value next heap = .error cause after) :
    value.Plain ∧ next value heap = .error cause after := by
  rw [andThen] at h
  split at h
  · cases h
  · rename_i hplain
    exact ⟨Bool.eq_false_iff.2 hplain, h⟩

end Evaluation

open Evaluation in
/-- Statements that are given up are given up in one of them, and those before it come to a plain
value. -/
theorem Evaluator.statements_error {evaluator : Evaluator} {scope : ScopeId} {cause : Halt}
    {after : Heap} : ∀ {statements : List Node} {before : Value} {heap : Heap}, before.Plain →
    evaluator.statements scope before statements heap = .error cause after →
    ∃ front failing rest value middle, statements = front ++ failing :: rest ∧
      evaluator.statements scope before front heap = .ok value middle ∧ value.Plain ∧
      evaluator failing scope middle = .error cause after
  | [], _, _, _, h => by cases h
  | first :: others, before, heap, hbefore, h => by
    rcases of_bind_error h with hfirst | ⟨value, middle, hfirst, hnext⟩
    · exact ⟨[], first, others, before, heap, rfl, rfl, hbefore, hfirst⟩
    · obtain ⟨hplain, hothers⟩ := of_andThen_error hnext
      obtain ⟨front, failing, rest, last, middle', rfl, hfront, hlast, hfailing⟩ :=
        statements_error hplain hothers
      refine ⟨first :: front, failing, rest, last, middle', rfl, ?_, hlast, hfailing⟩
      rw [statements, andThen_plain hfirst hplain]
      exact hfront

/-- A program that is given up is given up in its statements. -/
theorem statements_of_evaluateProgram {statements : List Node} {scope : ScopeId} {heap after : Heap}
    {cause : Halt} (h : evaluateProgram statements scope heap = (.error cause, after)) :
    (evaluate (depthLimit - 1)).statements scope .null statements heap = .error cause after := by
  rw [evaluateProgram] at h
  split at h
  · cases h
  · rename_i cause' after' hrun
    obtain ⟨⟨rfl⟩, rfl⟩ := Prod.mk.inj h
    rcases Evaluation.of_bind_error hrun with hstatements | ⟨_, _, _, hpure⟩
    · exact hstatements
    · cases hpure

/-! ## The words of a session -/

/-- The characters of blank lines and of the words that end a session. -/
def Session.ofWords (c : Char) : Bool :=
  Text.isBlank c || c ∈ ['e', 'x', 'i', 't', 'q', 'u']

/-- A text without the blanks at its ends has these blanks around it again. -/
theorem Text.mem_trim {text : List Char} {c : Char} (h : c ∈ text) :
    isBlank c = true ∨ c ∈ trim text := by
  rw [← List.takeWhile_append_dropWhile (p := isBlank) (l := text)] at h
  rcases List.mem_append.1 h with h | h
  · exact .inl (Token.of_mem_takeWhile h)
  · rw [← List.mem_reverse, ← List.takeWhile_append_dropWhile (p := isBlank)
      (l := (text.dropWhile isBlank).reverse)] at h
    rcases List.mem_append.1 h with h | h
    · exact .inl (Token.of_mem_takeWhile h)
    · exact .inr (List.mem_reverse.2 h)

theorem Session.ofWords_of_trim {source : String}
    (hword : String.ofList (Text.trim source.toList) ∈ ["", "exit", "quit"]) :
    ∀ c ∈ source.toList, ofWords c = true := by
  have hwords : (["", "exit", "quit"].all fun word => word.toList.all ofWords) = true := by decide
  intro c hc
  rcases Text.mem_trim hc with hblank | hmem
  · rw [ofWords, hblank, Bool.true_or]
  · refine List.all_eq_true.1 (List.all_eq_true.1 hwords _ hword) c ?_
    rwa [String.toList_ofList]

theorem Token.ofWords_of_isDigit {c : Char} (h : isDigit c = true) : Session.ofWords c = false := by
  simp only [isDigit, Bool.and_eq_true, decide_eq_true_eq] at h
  obtain ⟨hlower, hupper⟩ : 0x30 ≤ c.toNat ∧ c.toNat ≤ 0x39 := h
  refine Bool.eq_false_iff.2 fun hc => ?_
  rw [Session.ofWords, Bool.or_eq_true] at hc
  rcases hc with hblank | hletter
  · simp [Text.isBlank, Text.blanks] at hblank
    omega
  · have hletters : (['e', 'x', 'i', 't', 'q', 'u'].all fun d => 0x39 < d.toNat) = true := by decide
    have hlarge := of_decide_eq_true (List.all_eq_true.1 hletters c (of_decide_eq_true hletter))
    exact absurd hupper (Nat.not_le.2 hlarge)

/-- A token whose characters are those of the words of a session is a name, or it is no token of the
language at all. -/
theorem Token.Proper.kind_of_ofWords {token : Token} (h : token.Proper)
    (hwords : token.literal.toList.all Session.ofWords = true) :
    token.kind = .ident ∨ token.kind = .illegal := by
  have hsymbol : ∀ text, token.kind.symbol? = some text →
      text.toList.all Session.ofWords = true := fun text htext => h.symbol text htext ▸ hwords
  have hword : token.kind.isWord = true → token.kind = .ident := by
    intro hkind
    obtain ⟨-, -, hliteral⟩ := h.word hkind
    rw [← hliteral, TokenKind.ofWord_eq_ident_iff]
    intro hmem
    have hreserved : ∀ word ∈ reservedWords, word.toList.all Session.ofWords = false := by decide
    rw [hreserved _ hmem] at hwords
    cases hwords
  have hinteger : token.kind ≠ .int := by
    intro hkind
    obtain ⟨hne, hdigits⟩ := h.integer hkind
    obtain ⟨c, hc⟩ := List.exists_mem_of_ne_nil _ hne
    exact absurd (List.all_eq_true.1 hwords c hc) (Bool.eq_false_iff.1 (ofWords_of_isDigit (hdigits c hc)))
  have heof := h.eof
  cases hkind : token.kind <;> rw [hkind] at hsymbol hword hinteger heof <;>
    first
    | exact .inl rfl
    | exact .inr rfl
    | exact absurd rfl hinteger
    | exact absurd rfl heof
    | exact absurd (hword rfl) (by decide)
    | exact absurd (hsymbol _ rfl) (by decide)

/-- A statement that is nothing but a name. -/
def Node.IsName (node : Node) : Prop :=
  ∃ token identifier, node = .expression token (.reference identifier)

/-- What there is in a phrase of nothing but names. -/
def Phrase.Refers : Phrase → Prop
  | expression _ tree | closed tree => ∃ identifier, tree = .reference identifier
  | statement tree => tree.IsName
  | statements trees => ∀ tree ∈ trees, tree.IsName
  | _ => True

/-- Without other tokens than names there are no other statements than names. -/
theorem Derives.refers {limit : List Token → List Token → Prop} {phrase : Phrase}
    {input rest : List Token} (h : Derives limit phrase input rest) :
    (∀ token ∈ input, token.kind = .ident ∨ token.kind = .illegal) → phrase.Refers := by
  -- the first token of any other phrase is of another kind
  have first {token : Token} {others : List Token} {kind : TokenKind} {p : Prop}
      (hkind : token.kind = kind) (hother : kind ≠ .ident ∧ kind ≠ .illegal)
      (htokens : ∀ token' ∈ token :: others, token'.kind = .ident ∨ token'.kind = .illegal) : p := by
    have hfirst := htokens token List.mem_cons_self
    rw [hkind] at hfirst
    exact (not_or.2 hother hfirst).elim
  induction h with
  | reference => exact fun _ => ⟨_, rfl⟩
  | integer hkind | trueWord hkind | falseWord hkind | group hkind | ifThen hkind | ifThenElse hkind
  | function hkind => exact first hkind (by decide)
  | unary hsign =>
    rcases hsign with hsign | hsign <;> exact first hsign (by decide)
  | call hcallee hopens =>
    exact fun htokens => first hopens (by decide) fun token htoken =>
      htokens token (hcallee.suffix.subset htoken)
  | @binary stratum operator _ _ _ _ _ hleft hoperator =>
    refine fun htokens => first rfl ?_ fun token htoken => htokens token (hleft.suffix.subset htoken)
    generalize operator.kind = kind at hoperator
    revert hoperator
    cases stratum <;> cases kind <;> decide
  | ofTighter _ ih | semicolon _ _ _ ih | bare _ _ ih => exact ih
  | statement hlead _ ih =>
    intro htokens
    cases hlead with
    | binding hword => exact first hword (by decide) htokens
    | result hword => exact first hword (by decide) htokens
    | expression =>
      obtain ⟨identifier, rfl⟩ := ih htokens
      exact ⟨_, identifier, rfl⟩
  | noStatements => exact fun _ => List.forall_mem_nil _
  | someStatements hfirst _ ih ih' =>
    exact fun htokens => List.forall_mem_cons.2
      ⟨ih htokens, ih' fun token htoken => htokens token (hfirst.suffix.subset htoken)⟩
  | _ => exact fun _ => True.intro

/-- Names do not run away. -/
theorem exists_statements_of_isName {scope : ScopeId} : ∀ {statements : List Node} {before : Value}
    {heap : Heap}, (∀ statement ∈ statements, statement.IsName) → ∃ value,
      (evaluate (depthLimit - 1)).statements scope before statements heap = .ok value heap
  | [], before, _, _ => ⟨before, rfl⟩
  | first :: rest, before, heap, h => by
    obtain ⟨token, identifier, rfl⟩ := h first List.mem_cons_self
    have hfirst : evaluate (depthLimit - 1) (.expression token (.reference identifier)) scope heap =
      .ok ((heap.lookup scope identifier.name).getD (.error (.unbound identifier.name))) heap := rfl
    rw [Evaluator.statements]
    by_cases hplain : ((heap.lookup scope identifier.name).getD
        (.error (.unbound identifier.name))).Plain
    · rw [Evaluation.andThen_plain hfirst hplain]
      exact exists_statements_of_isName fun statement hstatement =>
        h statement (List.mem_cons_of_mem _ hstatement)
    · exact ⟨_, Evaluation.andThen_signal hfirst hplain⟩

/-- A line that runs away is taken for nothing but a line to be run. -/
theorem Session.trim_notMem_of_overflow {source : String} {statements : List Node} {scope : ScopeId}
    {heap after : Heap} {cause : Halt} (hparse : parse source = .ok ⟨statements, []⟩)
    (hoverflow : evaluateProgram statements scope heap = (.error cause, after)) :
    String.ofList (Text.trim source.toList) ∉ ["", "exit", "quit"] := by
  intro hword
  have hchars := Session.ofWords_of_trim hword
  have htokens : ∀ token ∈ Token.scan source.toList, token.kind = .ident ∨ token.kind = .illegal := by
    intro token htoken
    refine (Token.proper_of_mem_scanFrom htoken).kind_of_ofWords <|
      List.all_eq_true.2 fun c hc => hchars c ?_
    obtain ⟨d, rest, hsuffix, -, -, hliteral⟩ := Token.exists_lexeme _ htoken
    rw [hliteral, String.toList_ofList] at hc
    exact hsuffix.subset (List.cons_subset_cons d (List.take_subset _ _) hc)
  have hnames : (Phrase.statements statements).Refers := (derives_of_parse hparse).1.refers htokens
  obtain ⟨value, hvalue⟩ : ∃ value, (evaluate (depthLimit - 1)).statements scope .null statements heap =
    .ok value heap := exists_statements_of_isName hnames
  cases (statements_of_evaluateProgram hoverflow).symm.trans hvalue

/-! ## The session goes on -/

namespace Session

variable {session : Session} {source : String} {statements : List Node} {after : Heap}

/-- What is shown of a line that runs away, and what is left of it. -/
theorem take_overflow (hparse : parse source = .ok ⟨statements, []⟩)
    (hoverflow : evaluateProgram statements session.scope session.heap = (.error .tooDeep, after)) :
    session.take (.line source) =
      .ok { shown := listingIf session.debug source statements ++ "RecursionError\n"
            after := { session with heap := after } } := by
  have hrun := run_of_parse hparse file session.scope session.heap
  rw [hoverflow] at hrun
  rw [take_line (trim_notMem_of_overflow hparse hoverflow), runLine, hrun]
  rfl

/-- **Runaway recursion loses no completed work.**  If a line is parsed without a diagnostic and its
evaluation is given up for its depth, then one of its statements is given up.  Those before it are done,
and what they have left is still there: in the scope of the session the statement that is given up may have
changed the bindings of the names that it binds itself, outside of function literals, and in the other
scopes that were there before the line it has changed nothing.  The session says that the line ran away,
and goes on with the next input. -/
theorem continueWith_overflow (known : session.scope < session.heap.scopes.size)
    (hparse : parse source = .ok ⟨statements, []⟩)
    (hoverflow : evaluateProgram statements session.scope session.heap = (.error .tooDeep, after)) :
    ∃ front failing rest value middle, statements = front ++ failing :: rest ∧
      evaluateProgram front session.scope session.heap = (.ok value, middle) ∧ value.Plain ∧
      evaluate (depthLimit - 1) failing session.scope middle = .error .tooDeep after ∧
      session.heap.scopes.size ≤ middle.scopes.size ∧
      middle.Confined session.scope failing.boundNames after ∧
      ∀ inputs : List Input, session.continueWith (.line source :: inputs) =
        let later := continueWith { session with heap := after } inputs
        { later with
          shown := prompt ++ (listingIf session.debug source statements ++ "RecursionError\n") ++
            later.shown } := by
  obtain ⟨front, failing, rest, value, middle, hstatements, hfront, hplain, hfailing⟩ :=
    Evaluator.statements_error (show Value.Plain .null from rfl)
      (statements_of_evaluateProgram hoverflow)
  have hbefore := confines_statements (confining_evaluate (depthLimit - 1)) session.scope .null front _ known
  rw [Evaluation.heapAfter, hfront] at hbefore
  have hconfined := confining_evaluate (depthLimit - 1) failing session.scope middle
    (Nat.lt_of_lt_of_le known hbefore.size)
  rw [Evaluation.heapAfter, hfailing] at hconfined
  refine ⟨front, failing, rest, value, middle, hstatements,
    evaluateProgram_eq (evaluate_program_plain hfront hplain), hplain, hfailing, hbefore.size,
    hconfined, fun inputs => ?_⟩
  rw [continueWith, take_overflow hparse hoverflow]
  rfl

/-- The second statement of a line calls a function that calls itself. -/
theorem continueWith_overflow_recursion :
    let session : Session := {}
    let source := "let f = fn() \x7b !!!!!!!!!!!!!!!!f() \x7d; let b = f(); b"
    let statements := statementsOf source
    let after := (evaluateProgram statements session.scope session.heap).2
    session.scope < session.heap.scopes.size ∧ parse source = .ok ⟨statements, []⟩ ∧
      evaluateProgram statements session.scope session.heap = (.error .tooDeep, after) ∧
      ∃ front failing rest value middle, statements = front ++ failing :: rest ∧
        evaluateProgram front session.scope session.heap = (.ok value, middle) ∧ value.Plain ∧
        evaluate (depthLimit - 1) failing session.scope middle = .error .tooDeep after ∧
        session.heap.scopes.size ≤ middle.scopes.size ∧
        middle.Confined session.scope failing.boundNames after ∧
        ∀ inputs : List Input, session.continueWith (.line source :: inputs) =
          let later := continueWith { session with heap := after } inputs
          { later with
            shown := prompt ++ (listingIf session.debug source statements ++ "RecursionError\n") ++
              later.shown } := by
  intro session source statements after
  have hparse : parse source = .ok ⟨statements, []⟩ :=
    parse_statementsOf (by decide +kernel)
  have hdeep : (match (evaluateProgram statements session.scope session.heap).1 with
      | .error .tooDeep => true
      | _ => false) = true := by decide +kernel
  have hoverflow : evaluateProgram statements session.scope session.heap = (.error .tooDeep, after) := by
    refine Prod.ext ?_ rfl
    split at hdeep
    · assumption
    · cases hdeep
  exact ⟨by decide, hparse, hoverflow, continueWith_overflow (by decide) hparse hoverflow⟩

end Session

end MonkeyLang
