import MonkeyLang.Proofs.Session.Endurance

/-!
# Lines that leave no trace

A blank line is passed over, and a malformed one is refused before any of it is evaluated, even where its
parse recovers.  So neither leaves anything behind for the lines that follow it, and a session without these
lines comes to the same scopes and answers all its other inputs in the same way.

Whether a line is one of the words that end the session is decided before it is parsed.  With some blanks
around it such a word is malformed, and still it ends the session: it is not one of the lines that can be
left out (`Session.transcript_malformed_word`).

* `Input.isIdle` tells which inputs these are, and `Input.Dismissed` what a session shows for them.
* `Session.answers` takes what a session shows apart, input by input.
* `Session.transcript_omit_idle` is the statement about a session.
-/

set_option autoImplicit false

namespace MonkeyLang

/-! ## Idle inputs -/

namespace Input

/-- A line of blanks. -/
def isBlank : Input → Bool
  | line source => Session.word source = ""
  | _ => false

/-- A line whose parse records a diagnostic. -/
def isMalformed : Input → Bool
  | line source =>
    match parse source with
    | .ok parsed => parsed.diagnostics ≠ []
    | .error _ => false
  | _ => false

/-- A line that is a word that ends the session. -/
def isFarewell : Input → Bool
  | line source => Session.word source ∈ ["exit", "quit"]
  | _ => false

/-- A line is idle if there is nothing in it, or if it is refused. -/
def isIdle (input : Input) : Bool :=
  input.isBlank || input.isMalformed && !input.isFarewell

/-- An idle line is answered by its diagnostics, one on each line, unless it is blank. -/
inductive Dismissed : Input → String → Prop
  | blank {source : String} (hword : Session.word source = "") : Dismissed (line source) ""
  | refused {source : String} {parsed : Parsed} (hparse : parse source = .ok parsed)
      (hfaults : parsed.diagnostics ≠ []) :
      Dismissed (line source) (unlines
        ("Parse errors in <stdin>:" :: parsed.diagnostics.map fun diagnostic => "\t" ++ diagnostic.line))

end Input

/-! ## Sessions -/

namespace Session

variable {input : Input}

/-- A refused line is answered by its diagnostics, and nothing else comes of it. -/
theorem runLine_of_refused (session : Session) {source : String} {parsed : Parsed}
    (hparse : parse source = .ok parsed) (hfaults : parsed.diagnostics ≠ []) :
    session.runLine source =
      .ok { shown := SyntaxError.report ⟨parsed.diagnostics, some file⟩, after := session } := by
  rw [runLine, run_of_faults hparse hfaults]
  rfl

/-- An idle input leaves the session as it is. -/
theorem take_of_isIdle (session : Session) (h : input.isIdle = true) :
    ∃ shown, session.take input = .ok { shown, after := session } ∧ input.Dismissed shown := by
  cases input with
  | interrupt | ended => cases h
  | line source =>
    by_cases hblank : word source = ""
    · exact ⟨"", take_line_blank hblank, .blank hblank⟩
    · simp only [Input.isIdle, Input.isBlank, hblank, decide_false, Bool.false_or, Bool.and_eq_true,
        Input.isFarewell, Bool.not_eq_true', decide_eq_false_iff_not] at h
      obtain ⟨hmalformed, hleft⟩ := h
      have hword : word source ∉ ["", "exit", "quit"] := by simpa [hblank] using hleft
      rw [Input.isMalformed] at hmalformed
      split at hmalformed
      · rename_i parsed hparse
        have hfaults : parsed.diagnostics ≠ [] := of_decide_eq_true hmalformed
        have hturn := (take_line hword).trans (runLine_of_refused session hparse hfaults)
        exact ⟨_, hturn, .refused hparse hfaults⟩
      · cases hmalformed

/-- The inputs that a session gets to, each with what is shown for it.  Behind the last of the inputs the
input ends. -/
def answers (session : Session) : List Input → List (Input × String)
  | [] => [(.ended, "\n")]
  | input :: rest =>
    match session.take input with
    | .error _ => [(input, "")]
    | .ok turn => (input, turn.shown) :: if turn.goesOn then turn.after.answers rest else []

/-- There is a prompt before each answer. -/
theorem continueWith_shown : ∀ (session : Session) (inputs : List Input),
    (session.continueWith inputs).shown =
      String.join ((session.answers inputs).map fun answer => prompt ++ answer.2)
  | _, [] => rfl
  | session, input :: rest => by
    cases hturn : session.take input with
    | error cause => simp [continueWith, answers, hturn, String.join_cons]
    | ok turn =>
      by_cases hgoes : turn.goesOn = true
      · simp [continueWith, answers, hturn, hgoes, continueWith_shown turn.after rest, String.join_cons]
      · simp [continueWith, answers, hturn, hgoes, String.join_cons]

variable (session : Session) (rest : List Input)

theorem continueWith_of_isIdle (h : input.isIdle = true) :
    (session.continueWith (input :: rest)).after = (session.continueWith rest).after ∧
      (session.continueWith (input :: rest)).brokenOff = (session.continueWith rest).brokenOff := by
  obtain ⟨shown, hturn, -⟩ := take_of_isIdle session h
  rw [continueWith, hturn]
  exact ⟨rfl, rfl⟩

theorem answers_of_isIdle (h : input.isIdle = true) :
    ∃ shown, session.answers (input :: rest) = (input, shown) :: session.answers rest ∧
      input.Dismissed shown := by
  obtain ⟨shown, hturn, hdismissed⟩ := take_of_isIdle session h
  refine ⟨shown, ?_, hdismissed⟩
  rw [answers, hturn]
  rfl

theorem continueWith_omit : ∀ (session : Session) (inputs : List Input),
    let kept := inputs.filter fun input => !input.isIdle
    (session.continueWith kept).after = (session.continueWith inputs).after ∧
      (session.continueWith kept).brokenOff = (session.continueWith inputs).brokenOff
  | _, [] => ⟨rfl, rfl⟩
  | session, input :: rest => by
    intro kept
    by_cases hidle : input.isIdle = true
    · obtain ⟨hafter, hbroken⟩ := continueWith_of_isIdle session rest hidle
      have hkept : kept = rest.filter fun input => !input.isIdle := List.filter_cons_of_neg (by simp [hidle])
      rw [hkept, hafter, hbroken]
      exact continueWith_omit session rest
    · have hkept : kept = input :: rest.filter fun input => !input.isIdle :=
        List.filter_cons_of_pos (by simp [hidle])
      rw [hkept]
      cases hturn : session.take input with
      | error cause => simp [continueWith, hturn]
      | ok turn =>
        by_cases hgoes : turn.goesOn = true
        · simpa [continueWith, hturn, hgoes] using continueWith_omit turn.after rest
        · simp [continueWith, hturn, hgoes]

theorem answers_omit : ∀ (session : Session) (inputs : List Input),
    session.answers (inputs.filter fun input => !input.isIdle) =
      (session.answers inputs).filter fun answer => !answer.1.isIdle
  | _, [] => rfl
  | session, input :: rest => by
    by_cases hidle : input.isIdle = true
    · obtain ⟨shown, hanswers, -⟩ := answers_of_isIdle session rest hidle
      rw [hanswers, List.filter_cons_of_neg (by simp [hidle]), List.filter_cons_of_neg (by simp [hidle])]
      exact answers_omit session rest
    · rw [List.filter_cons_of_pos (by simp [hidle])]
      cases hturn : session.take input with
      | error cause => simp [answers, hturn, hidle]
      | ok turn =>
        by_cases hgoes : turn.goesOn = true
        · simp [answers, hturn, hgoes, hidle, answers_omit turn.after rest]
        · simp [answers, hturn, hgoes, hidle]

theorem dismissed_of_mem_answers : ∀ (session : Session) (inputs : List Input),
    ∀ answer ∈ session.answers inputs, answer.1.isIdle = true → answer.1.Dismissed answer.2
  | session, [], answer, hmem, hidle => by
    obtain rfl := List.mem_singleton.1 hmem
    cases hidle
  | session, input :: rest, answer, hmem, hidle => by
    by_cases hfirst : input.isIdle = true
    · obtain ⟨shown, hanswers, hdismissed⟩ := answers_of_isIdle session rest hfirst
      rw [hanswers] at hmem
      rcases List.mem_cons.1 hmem with rfl | hmem
      · exact hdismissed
      · exact dismissed_of_mem_answers session rest answer hmem hidle
    · rw [answers] at hmem
      split at hmem
      · obtain rfl := List.mem_singleton.1 hmem
        exact absurd hidle hfirst
      · rename_i turn _
        rcases List.mem_cons.1 hmem with rfl | hmem
        · exact absurd hidle hfirst
        · split at hmem
          · exact dismissed_of_mem_answers turn.after rest answer hmem hidle
          · cases hmem

/-- **Idle lines leave no trace.**  Without all its blank lines and all its malformed ones, but for the
words that end it, a session comes to the same scopes, is broken off for the same cause if it is, and gets
to the same inputs otherwise, with the same answers.  What it shows for the lines that are left out is
nothing for a blank one and the diagnostics of a malformed one. -/
theorem transcript_omit_idle (session : Session) (inputs : List Input) :
    let kept := inputs.filter fun input => !input.isIdle
    (session.transcript kept).after = (session.transcript inputs).after ∧
    (session.transcript kept).brokenOff = (session.transcript inputs).brokenOff ∧
    session.answers kept = ((session.answers inputs).filter fun answer => !answer.1.isIdle) ∧
    (∀ answer ∈ session.answers inputs, answer.1.isIdle = true → answer.1.Dismissed answer.2) ∧
    ∀ given, (session.transcript given).shown =
      banner ++ String.join ((session.answers given).map fun answer => prompt ++ answer.2) := by
  intro kept
  obtain ⟨hafter, hbroken⟩ := continueWith_omit session inputs
  exact ⟨hafter, hbroken, answers_omit session inputs, dismissed_of_mem_answers session inputs,
    fun given => congrArg (banner ++ ·) (continueWith_shown session given)⟩

/-- A malformed line in the middle of a session.  Its parse recovers with a binding, which is not made. -/
theorem transcript_omit_idle_recovered :
    let malformed := Input.line "let a = 3 )"
    let inputs := [.line "let a = 1", malformed, .line " ", .line "a"]
    malformed.isIdle = true ∧
    (∃ shown, (malformed, shown) ∈ answers {} inputs ∧ malformed.Dismissed shown) ∧
    (transcript {} inputs).after.heap.lookup 0 "a" = some (.integer 0 1) ∧
    (.line "a", "1\n") ∈ answers {} inputs := by
  intro malformed inputs
  have hidle : malformed.isIdle = true := by decide +kernel
  have hkept : (inputs.filter fun input => !input.isIdle) = [.line "let a = 1", .line "a"] := by
    decide +kernel
  obtain ⟨shown, hshown⟩ : ∃ shown, (malformed, shown) ∈ answers {} inputs :=
    ⟨"Parse errors in <stdin>:\n\tline 1, column 11: no prefix parse function for ) found\n",
      by decide +kernel⟩
  obtain ⟨hafter, -, hanswers, hdismissed, -⟩ := transcript_omit_idle {} inputs
  rw [hkept] at hafter hanswers
  have hanswer : (.line "a", "1\n") ∈ answers {} [.line "let a = 1", .line "a"] := by decide +kernel
  rw [hanswers] at hanswer
  refine ⟨hidle, ⟨shown, hshown, hdismissed _ hshown hidle⟩, ?_, (List.mem_filter.1 hanswer).1⟩
  rw [← hafter]
  rfl

/-- A word that ends the session is no idle line, even if it is malformed for the blanks around it: without
this line the session goes on. -/
theorem transcript_malformed_word :
    let farewell := Input.line "exit\x0c"
    let inputs := [farewell, .line "let a = 1"]
    let kept := inputs.filter fun input => !(input.isBlank || input.isMalformed)
    farewell.isMalformed = true ∧ kept = [.line "let a = 1"] ∧
    (transcript {} inputs).after.heap.lookup 0 "a" = none ∧
    (transcript {} kept).after.heap.lookup 0 "a" = some (.integer 0 1) ∧
    (transcript {} kept).after ≠ (transcript {} inputs).after := by
  intro farewell inputs kept
  have hkept : kept = [.line "let a = 1"] := by decide +kernel
  have hunbound : (transcript {} inputs).after.heap.lookup 0 "a" = none := rfl
  have hbound : (transcript {} kept).after.heap.lookup 0 "a" = some (.integer 0 1) := by
    rw [hkept]
    rfl
  refine ⟨by decide +kernel, hkept, hunbound, hbound, fun hsame => ?_⟩
  rw [hsame, hunbound] at hbound
  cases hbound

end Session

end MonkeyLang
