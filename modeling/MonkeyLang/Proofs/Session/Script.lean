import MonkeyLang.Session
import MonkeyLang.Proofs.Evaluation.Leaving
import MonkeyLang.Proofs.Evaluation.Reword
import MonkeyLang.Proofs.Grammar.Numerals
import MonkeyLang.Proofs.Parsing.Concatenation
import MonkeyLang.Proofs.Parsing.Twins

/-!
# A session and a script

The lines of a session may be written into one file instead, each on a line of its own, and run as a
script.  If every line is `Complete` and nothing goes wrong in the session, then the script comes to the
same value as the last line, and to the same bindings (`session_agrees_with_script`).

There are two differences to be bridged.

* The script is parsed as one text, in which the tokens stand at other places.  It has the statements of
  all lines, one after the other, since a parser starts afresh behind a complete line (`parse_lines`);
  and their places are not seen by evaluation (`seen_eq_of_gist`).
* A signal ends a line, but it ends the whole of a script.  In a `Quiet` session there are no signals, so
  it makes no difference whether statements are evaluated as one program or as several
  (`Session.Quiet.runs`).
-/

set_option autoImplicit false

namespace MonkeyLang

/-! ## Complete lines -/

/-- The statements of a text, as far as they are well formed. -/
def statementsOf (source : String) : List Node :=
  ((parse source).toOption.map Parsed.statements).getD []

/-- A parse with some diagnostics has come to its end. -/
theorem exists_of_diagnostics {outcome : Except Abort Parsed} {diagnostics : List Diagnostic}
    (h : outcome.toOption.map Parsed.diagnostics = some diagnostics) :
    ∃ statements, outcome = .ok ⟨statements, diagnostics⟩ := by
  cases outcome with
  | error cause => cases h
  | ok parsed => exact ⟨parsed.statements, congrArg (fun d => Except.ok (Parsed.mk _ d)) (Option.some.inj h)⟩

/-- A text that is parsed without a diagnostic is parsed as its statements. -/
theorem parse_statementsOf {source : String}
    (h : (parse source).toOption.map Parsed.diagnostics = some []) :
    parse source = .ok ⟨statementsOf source, []⟩ := by
  obtain ⟨statements, hparse⟩ := exists_of_diagnostics h
  rw [statementsOf, hparse]
  rfl

/-- A line that is complete in itself: it is parsed without a diagnostic, its blocks are closed, it ends
with a semicolon, and it is none of the words that a session takes for something else. -/
structure Complete (line : String) : Prop where
  parsed : ∃ statements, parse line = .ok ⟨statements, []⟩
  balanced : Balanced (Token.scan line.toList)
  ended : ∃ token ∈ (Token.scan line.toList).getLast?, token.kind = .semicolon
  word : String.ofList (Text.trim line.toList) ∉ ["", "exit", "quit"]

namespace Complete

variable {line : String}

theorem parse_eq (h : Complete line) : parse line = .ok ⟨statementsOf line, []⟩ := by
  obtain ⟨statements, hstatements⟩ := h.parsed
  refine parse_statementsOf ?_
  rw [hstatements]
  rfl

theorem statements_ne_nil (h : Complete line) : statementsOf line ≠ [] := by
  refine ne_nil_of_parse h.parse_eq fun hnil => ?_
  obtain ⟨token, htoken, -⟩ := h.ended
  rw [hnil] at htoken
  cases htoken

end Complete

/-! ## The script is parsed line by line -/

/-- The tokens of a text that is parsed without a diagnostic can be read. -/
theorem legible_of_parse {source : String} {trees : List Node} (h : parse source = .ok ⟨trees, []⟩) :
    ∀ token ∈ Token.scan source.toList, token.Legible :=
  fun _ htoken => Token.legible_of_mem_scan htoken (length_le_of_parse h htoken)

/-- The run of a text that is parsed without a diagnostic. -/
theorem Parser.exists_run_of_parse {source : String} {trees : List Node}
    (h : parse source = .ok ⟨trees, []⟩) : ∃ depth rounds window,
      statementsWith (.upTo .standard depth) [] rounds ⟨.ofSource source, []⟩ =
        .ok trees ⟨window, []⟩ := by
  obtain ⟨depth, rounds, found, ⟨window, diagnostics⟩, hrun, hparse⟩ :=
    @exists_run (.ofSource source) rfl (legible_of_parse h)
  have hparsed := Except.ok.inj (h.symm.trans hparse)
  obtain rfl : trees = found := congrArg Parsed.statements hparsed
  obtain rfl : [] = diagnostics := congrArg Parsed.diagnostics hparsed
  exact ⟨depth, rounds, window, hrun⟩

/-- Behind enclosed tokens the parser reads what it reads in a text of its own, but for the places. -/
theorem Parser.run_joined {tokens behind : List Token} {last finish : Token} (start : Position)
    (hinside : Enclosed 0 tokens) (hlast : last.kind = .eof) {first second trees : List Node}
    {depth depth' depth'' rounds rounds' rounds'' : Nat} {window window' : TokenStream}
    {after : ParserState}
    (hfirst : statementsWith (.upTo .standard depth) [] rounds ⟨⟨tokens, last⟩, []⟩ =
      .ok first ⟨window, []⟩)
    (hsecond : statementsWith (.upTo .standard depth') [] rounds' ⟨⟨behind, finish⟩, []⟩ =
      .ok second ⟨window', []⟩)
    (hboth : statementsWith (.upTo .standard depth'') [] rounds''
      ⟨⟨tokens ++ behind.map (.mapPlace start.shift), finish.mapPlace start.shift⟩, []⟩ =
        .ok trees after) :
    trees = first ++ Node.mapTokensAll (.mapPlace start.shift) second ∧ after.diagnostics = [] := by
  -- up to the seam the statements are those of the first tokens
  obtain ⟨_, rest, rfl, hrest⟩ := Tandem.of_ok (statementsWith_append
    (twins_upTo (Seam.lawful_enclosed _ _) depth depth'') rounds rounds'' hlast (.inr hinside))
    hfirst hboth
  -- and behind it they are those of the others, shifted
  have lawful : (Seam.shifted start []).Lawful := Seam.lawful_shifted _ _
  have hat : (Seam.shifted start []).At 0 ⟨⟨behind, finish⟩, []⟩
      ⟨⟨behind.map (.mapPlace start.shift), finish.mapPlace start.shift⟩, []⟩ :=
    ⟨True.intro, (List.append_nil _).symm, rfl, rfl⟩
  obtain ⟨rfl, hdone, -⟩ := Tandem.of_ok (statementsWith_tandem lawful
    (twins_upTo lawful depth' depth'') (Seam.staying_shifted _ _ [] 0) _ _ hat) hsecond hrest
  exact ⟨rfl, hdone.diagnostics⟩

/-- The tokens of a complete line, and those of a text on the lines after it. -/
theorem Complete.ofSource_joined {line : String} (hline : Complete line) (rest : String) :
    let start := Position.afterAll {} (line ++ "\n").toList
    TokenStream.ofSource (line ++ "\n" ++ rest) =
      ⟨Token.scan line.toList ++ (Token.scan rest.toList).map (.mapPlace start.shift),
        (Token.endOf rest.toList).mapPlace start.shift⟩ := by
  have hnewline : Token.scan (line ++ "\n").toList = Token.scan line.toList := by
    obtain ⟨last, hmem, hkind⟩ := hline.ended
    rw [String.toList_append, Token.scan_append fun token htoken =>
      Option.mem_unique htoken hmem ▸ hkind]
    exact List.append_nil _
  intro start
  rw [TokenStream.ofSource_append rest (hnewline ▸ hline.ended), hnewline]

/-- Behind a complete line a text is parsed as if it stood alone, but for the places of its tokens. -/
theorem Complete.parse_joined {line rest : String} (hline : Complete line) {others : List Node}
    (hrest : parse rest = .ok ⟨others, []⟩) : ∃ place : Position → Position,
      parse (line ++ "\n" ++ rest) =
        .ok ⟨statementsOf line ++ Node.mapTokensAll (.mapPlace place) others, []⟩ := by
  have hjoined := hline.ofSource_joined rest
  have hlegible : ∀ token ∈ (TokenStream.ofSource (line ++ "\n" ++ rest)).ahead, token.Legible := by
    rw [hjoined]
    refine List.forall_mem_append.2 ⟨legible_of_parse hline.parse_eq, List.forall_mem_map.2 ?_⟩
    exact legible_of_parse hrest
  obtain ⟨depth, rounds, window, hfirst⟩ := Parser.exists_run_of_parse hline.parse_eq
  obtain ⟨depth', rounds', window', hsecond⟩ := Parser.exists_run_of_parse hrest
  obtain ⟨depth'', rounds'', trees, after, hboth, hparse⟩ := Parser.exists_run rfl hlegible
  rw [hjoined] at hboth
  have henclosed := hline.balanced.enclosed hline.ended (TokenStream.ended_ofSource line).ahead
  obtain ⟨rfl, hsilent⟩ := Parser.run_joined _ henclosed rfl hfirst hsecond hboth
  exact ⟨_, hparse.trans (by rw [hsilent])⟩

/-- Complete lines, joined to one text, are parsed as their statements, but for the places. -/
theorem parse_lines : ∀ {lines : List String}, lines ≠ [] → (∀ line ∈ lines, Complete line) →
    ∃ trees, parse ("\n".intercalate lines) = .ok ⟨trees, []⟩ ∧
      (Node.program trees).reword .gist = (Node.program (lines.flatMap statementsOf)).reword .gist
  | [], hne, _ => absurd rfl hne
  | [line], _, h => by
    refine ⟨statementsOf line, (h line List.mem_cons_self).parse_eq, ?_⟩
    rw [List.flatMap_singleton]
  | line :: next :: rest, _, h => by
    obtain ⟨others, hothers, hgist⟩ :=
      parse_lines (List.cons_ne_nil next rest) fun line' hline' => h line' (List.mem_cons_of_mem _ hline')
    obtain ⟨place, hparse⟩ := (h line List.mem_cons_self).parse_joined hothers
    refine ⟨_, String.intercalate_cons_cons ▸ hparse, ?_⟩
    have hplaces : Node.rewordAll .gist (Node.mapTokensAll (Token.mapPlace place) others) =
        Node.rewordAll .gist others := by
      rw [Node.rewordAll_mapTokensAll, Rewording.gist_after (f := Token.mapPlace place) fun _ => rfl]
    have hrest := Node.program.inj hgist
    rw [Node.reword, Node.reword, List.flatMap_cons, Node.rewordAll_append, Node.rewordAll_append,
      hplaces, hrest]

/-! ## Nothing goes wrong -/

/-- Every one of some statements of a program comes to a value that is no signal, when they are evaluated
one after the other. -/
def Quiet (scope : ScopeId) : List Node → Heap → Prop
  | [], _ => True
  | first :: rest, heap =>
    match evaluate (depthLimit - 1) first scope heap with
    | .ok value after => value.Plain ∧ Quiet scope rest after
    | .error .. => False

instance decidableQuiet (scope : ScopeId) : ∀ (statements : List Node) (heap : Heap),
    Decidable (Quiet scope statements heap)
  | [], _ => isTrue True.intro
  | first :: rest, heap =>
    match h : evaluate (depthLimit - 1) first scope heap with
    | .ok value after =>
      have := decidableQuiet scope rest after
      decidable_of_iff (value.isSignal = false ∧ Quiet scope rest after) (by simp [Quiet, h, Value.Plain])
    | .error .. => isFalse (by simp [Quiet, h])

theorem Quiet.comes {scope : ScopeId} : ∀ {statements : List Node} {before : Value} {heap : Heap},
    Quiet scope statements heap → before.Plain → ∃ value after,
      (evaluate (depthLimit - 1)).statements scope before statements heap = .ok value after ∧
        value.Plain
  | [], before, heap, _, hbefore => ⟨before, heap, rfl, hbefore⟩
  | first :: rest, before, heap, h, _ => by
    rw [Quiet] at h
    split at h
    · rename_i value after hfirst
      rw [Evaluator.statements, Evaluation.andThen_plain hfirst h.1]
      exact h.2.comes h.1
    · exact h.elim

/-- What statements come to, they come to as a program. -/
theorem evaluate_program_plain {statements : List Node} {scope : ScopeId} {heap after : Heap}
    {value : Value}
    (h : (evaluate (depthLimit - 1)).statements scope .null statements heap = .ok value after)
    (hplain : value.Plain) : evaluate depthLimit (.program statements) scope heap = .ok value after := by
  refine (Evaluation.bind_ok h).trans ?_
  rw [hplain.unwrap_eq]
  rfl

theorem evaluateProgram_eq {statements : List Node} {scope : ScopeId} {heap after : Heap}
    {value : Value} (h : evaluate depthLimit (.program statements) scope heap = .ok value after) :
    evaluateProgram statements scope heap = (.ok value, after) := by
  rw [evaluateProgram, EStateM.run, h]

/-- What shows a value and a heap comes to a value and leaves a heap. -/
theorem exists_of_seen {result : EStateM.Result Halt Heap Value} {value : Value} {heap : Heap}
    (h : seen result = seen (.ok value heap)) : ∃ value' heap', result = .ok value' heap' ∧
      value'.seen = value.seen ∧ heap'.seen = heap.seen := by
  cases result with
  | ok value' heap' =>
    obtain ⟨hvalue, hheap⟩ := Prod.mk.inj h
    exact ⟨value', heap', rfl, Except.ok.inj hvalue, hheap⟩
  | error cause heap' => cases (Prod.mk.inj h).1

/-- A text without diagnostics is run. -/
theorem run_of_parse {source : String} {trees : List Node} (h : parse source = .ok ⟨trees, []⟩)
    (file : String) (scope : ScopeId) (heap : Heap) :
    run source file scope heap =
      .ok (.evaluated trees (evaluateProgram trees scope heap).1
        (evaluateProgram trees scope heap).2) := by
  have hstrict : parseStrictly source (some file) = .ok trees := by
    delta parseStrictly
    rw [h]
    rfl
  delta run
  rw [hstrict]

/-- A text with diagnostics is refused. -/
theorem run_of_faults {source : String} {parsed : Parsed} (h : parse source = .ok parsed)
    (hfaults : parsed.diagnostics ≠ []) (file : String) (scope : ScopeId) (heap : Heap) :
    run source file scope heap = .ok (.refused ⟨parsed.diagnostics, some file⟩) := by
  simp [run, parseStrictly, h, hfaults]

/-- A text whose parse is given up is given up. -/
theorem run_of_abort {source : String} {cause : Abort} (h : parse source = .error cause)
    (file : String) (scope : ScopeId) (heap : Heap) : run source file scope heap = .error cause := by
  simp only [run, parseStrictly, h]

/-- The value before statements does not matter if there are any. -/
theorem Evaluator.statements_before (evaluator : Evaluator) (scope : ScopeId) (before other : Value)
    {statements : List Node} (h : statements ≠ []) :
    evaluator.statements scope before statements = evaluator.statements scope other statements := by
  cases statements with
  | nil => exact absurd rfl h
  | cons first rest => rfl

/-! ## Sessions -/

/-- All statements of a text that is run come to values that are no signals. -/
def Run.Quiet (scope : ScopeId) (before : Heap) : Run → Prop
  | refused _ => True
  | evaluated statements _ _ => MonkeyLang.Quiet scope statements before

instance (scope : ScopeId) (before : Heap) : ∀ outcome : Run, Decidable (outcome.Quiet scope before)
  | .refused _ => isTrue True.intro
  | .evaluated statements _ _ => decidableQuiet scope statements before

namespace Session

/-- The session after a line. -/
def past (session : Session) (outcome : Run) : Session :=
  { session with heap := outcome.heapAfter session.heap }

/-- What comes of lines that are run one after the other. -/
def runs (session : Session) : List String → Except Abort (List Run)
  | [] => .ok []
  | line :: rest => do
    let outcome ← run line file session.scope session.heap
    return outcome :: (← (session.past outcome).runs rest)

/-- No statement of the lines fails, returns, or is given up. -/
def Quiet (session : Session) : List String → Prop
  | [] => True
  | line :: rest => ∀ outcome, run line file session.scope session.heap = .ok outcome →
    outcome.Quiet session.scope session.heap ∧ (session.past outcome).Quiet rest

instance decidableQuiet : ∀ (lines : List String) (session : Session),
    Decidable (session.Quiet lines)
  | [], _ => isTrue True.intro
  | line :: rest, session =>
    match h : run line file session.scope session.heap with
    | .ok outcome =>
      have := decidableQuiet rest (session.past outcome)
      decidable_of_iff (outcome.Quiet session.scope session.heap ∧ (session.past outcome).Quiet rest)
        ⟨fun hquiet _ hsame => Except.ok.inj (h.symm.trans hsame) ▸ hquiet, fun hquiet => hquiet _ h⟩
    | .error _ => isTrue fun _ hsame => by cases h.symm.trans hsame

variable {session : Session} {line : String} {lines : List String} {value : Value}

/-! ### One line -/

/-- A complete line of a session comes to a value that is no signal. -/
structure Passes (session : Session) (line : String) (value : Value) (after : Heap) : Prop where
  complete : Complete line
  plain : value.Plain
  ran : run line file session.scope session.heap =
    .ok (.evaluated (statementsOf line) (.ok value) after)
  /-- It does not matter what was come to before the line. -/
  statements : ∀ before : Value, (evaluate (depthLimit - 1)).statements session.scope before
    (statementsOf line) session.heap = .ok value after

/-- In a quiet session the first line passes, and the session goes on quietly. -/
theorem Quiet.passes {rest : List String} (hline : Complete line)
    (h : session.Quiet (line :: rest)) : ∃ value after,
      session.Passes line value after ∧ Quiet { session with heap := after } rest := by
  have hrun := run_of_parse hline.parse_eq file session.scope session.heap
  obtain ⟨hstatements, hrest⟩ := h _ hrun
  obtain ⟨value, after, hvalue, hplain⟩ := hstatements.comes (show Value.Plain .null from rfl)
  rw [evaluateProgram_eq (evaluate_program_plain hvalue hplain)] at hrun hrest
  refine ⟨value, after, ⟨hline, hplain, hrun, fun before => ?_⟩, hrest⟩
  rw [Evaluator.statements_before _ _ before .null hline.statements_ne_nil, hvalue]

/-- A line that is no word of the session is run. -/
theorem take_line {source : String}
    (hword : String.ofList (Text.trim source.toList) ∉ ["", "exit", "quit"]) :
    session.take (.line source) = session.runLine source := by
  obtain ⟨hblank, hexit, hquit⟩ : String.ofList (Text.trim source.toList) ≠ "" ∧
      String.ofList (Text.trim source.toList) ≠ "exit" ∧
      String.ofList (Text.trim source.toList) ≠ "quit" := by
    simpa using hword
  simp only [take, hexit, hquit, hblank, decide_false, Bool.or_self, Bool.false_eq_true, if_false]

/-- A complete line is taken for nothing but a line to be run. -/
theorem Passes.take {after : Heap} (h : session.Passes line value after) : ∃ shown,
    session.take (.line line) = .ok { shown, after := { session with heap := after } } := by
  rw [take_line h.complete.word, runLine, h.ran]
  exact ⟨_, rfl⟩

/-- What comes of a line and those after it. -/
theorem Passes.runs_cons {after : Heap} (h : session.Passes line value after) (rest : List String) :
    session.runs (line :: rest) = (Session.runs { session with heap := after } rest).map
      (.evaluated (statementsOf line) (.ok value) after :: ·) := by
  rw [runs, h.ran]
  show (do return _ :: (← Session.runs { session with heap := after } rest)) = _
  cases Session.runs { session with heap := after } rest <;> rfl

/-! ### All lines -/

/-- The lines of a session pass, one after the other.  The value is that of the last one. -/
inductive PassesAll : Session → List String → Value → Heap → Prop
  | last {session : Session} {line : String} {value : Value} {after : Heap}
      (h : session.Passes line value after) : PassesAll session [line] value after
  | more {session : Session} {line : String} {rest : List String} {value last : Value}
      {middle after : Heap} (h : session.Passes line value middle)
      (hrest : PassesAll { session with heap := middle } rest last after) :
      PassesAll session (line :: rest) last after

theorem Quiet.passesAll : ∀ {lines : List String} {session : Session}, lines ≠ [] →
    (∀ line ∈ lines, Complete line) → session.Quiet lines →
    ∃ value after, session.PassesAll lines value after
  | [], _, hne, _, _ => absurd rfl hne
  | line :: rest, session, _, hlines, hquiet => by
    obtain ⟨value, after, hline, hrest⟩ := hquiet.passes (hlines line List.mem_cons_self)
    by_cases hnil : rest = []
    · subst hnil
      exact ⟨value, after, .last hline⟩
    · obtain ⟨last, after, hlast⟩ := hrest.passesAll hnil fun line' hline' =>
        hlines line' (List.mem_cons_of_mem _ hline')
      exact ⟨last, after, .more hline hlast⟩

namespace PassesAll

variable {after : Heap}

/-- What comes of the lines. -/
theorem runs (h : session.PassesAll lines value after) : ∃ outcomes statements,
    session.runs lines = .ok outcomes ∧
      outcomes.getLast? = some (.evaluated statements (.ok value) after) := by
  induction h with
  | last h => exact ⟨_, _, h.runs_cons [], rfl⟩
  | more h _ ih =>
    obtain ⟨outcomes, statements, houtcomes, hlast⟩ := ih
    refine ⟨_, statements, (h.runs_cons _).trans (congrArg _ houtcomes), ?_⟩
    rw [List.getLast?_cons, hlast]
    rfl

/-- The session is not broken off, and it ends with what the lines leave. -/
theorem continueWith (h : session.PassesAll lines value after) :
    (session.continueWith (lines.map .line)).after = { session with heap := after } ∧
      (session.continueWith (lines.map .line)).brokenOff = none := by
  induction h with
  | last h =>
    obtain ⟨shown, htake⟩ := h.take
    rw [List.map_singleton, Session.continueWith, htake]
    exact ⟨rfl, rfl⟩
  | more h _ ih =>
    obtain ⟨shown, htake⟩ := h.take
    rw [List.map_cons, Session.continueWith, htake]
    exact ih

/-- The statements of all lines come to the same as the lines, when they are evaluated as those of one
program. -/
theorem statements (h : session.PassesAll lines value after) : ∀ before : Value,
    (evaluate (depthLimit - 1)).statements session.scope before (lines.flatMap statementsOf)
      session.heap = .ok value after ∧ value.Plain := by
  induction h with
  | last h =>
    intro before
    rw [List.flatMap_singleton]
    exact ⟨h.statements before, h.plain⟩
  | more h _ ih =>
    intro before
    rw [List.flatMap_cons, Evaluator.statements_append (h.statements before) h.plain]
    exact ih _

end PassesAll

end Session

/-- **A session and a script agree.**  Let all lines of a session be complete and all their statements
come to values that are no signals.  Then the lines, joined to one text and run as a script from the same
heap, show the same value as the last line, and leave a heap that shows the same as the one that the
session ends with. -/
theorem session_agrees_with_script {session : Session} {lines : List String} (hne : lines ≠ [])
    (hlines : ∀ line ∈ lines, Complete line) (hquiet : session.Quiet lines) (file : String) :
    ∃ outcomes statements value heap script value' heap',
      session.runs lines = .ok outcomes ∧
      outcomes.getLast? = some (.evaluated statements (.ok value) heap) ∧
      (session.continueWith (lines.map .line)).after = { session with heap := heap } ∧
      (session.continueWith (lines.map .line)).brokenOff = none ∧
      run ("\n".intercalate lines) file session.scope session.heap =
        .ok (.evaluated script (.ok value') heap') ∧
      value'.seen = value.seen ∧ heap'.seen = heap.seen := by
  obtain ⟨value, heap, hpasses⟩ := hquiet.passesAll hne hlines
  obtain ⟨outcomes, statements, houtcomes, hlast⟩ := hpasses.runs
  obtain ⟨hafter, hwhole⟩ := hpasses.continueWith
  obtain ⟨trees, hparse, hgist⟩ := parse_lines hne hlines
  obtain ⟨hstatements, hplain⟩ := hpasses.statements .null
  -- the program of the script shows what the statements of the lines come to
  have hseen := seen_eq_of_gist hgist (rfl : session.heap.reword .gist = _) depthLimit session.scope
  rw [evaluate_program_plain hstatements hplain] at hseen
  obtain ⟨value', heap', hscript, hvalue, hheap⟩ := exists_of_seen hseen
  have hrun := run_of_parse hparse file session.scope session.heap
  rw [evaluateProgram_eq hscript] at hrun
  exact ⟨outcomes, statements, value, heap, trees, value', heap', houtcomes, hlast, hafter, hwhole,
    hrun, hvalue, hheap⟩

/-- A function that is bound on one line is called on the next one. -/
theorem session_agrees_with_script_closure :
    let lines := ["let two = 2; let add = fn(x) \x7b x + two \x7d;", "add(03);"]
    let session : Session := {}
    lines ≠ [] ∧ (∀ line ∈ lines, Complete line) ∧ session.Quiet lines ∧
      ∃ outcomes statements value heap script value' heap',
        session.runs lines = .ok outcomes ∧
        outcomes.getLast? = some (.evaluated statements (.ok value) heap) ∧
        (session.continueWith (lines.map .line)).after = { session with heap := heap } ∧
        (session.continueWith (lines.map .line)).brokenOff = none ∧
        run ("\n".intercalate lines) "script" session.scope session.heap =
          .ok (.evaluated script (.ok value') heap') ∧
        value'.seen = value.seen ∧ heap'.seen = heap.seen := by
  intro lines session
  have hfirst : Complete "let two = 2; let add = fn(x) \x7b x + two \x7d;" :=
    ⟨⟨_, rfl⟩, by decide +kernel, ⟨⟨.semicolon, ";", ⟨1, 41⟩⟩, by decide +kernel, rfl⟩,
      by decide +kernel⟩
  have hsecond : Complete "add(03);" :=
    ⟨⟨_, rfl⟩, by decide +kernel, ⟨⟨.semicolon, ";", ⟨1, 8⟩⟩, by decide +kernel, rfl⟩,
      by decide +kernel⟩
  have hlines : ∀ line ∈ lines, Complete line :=
    List.forall_mem_cons.2 ⟨hfirst, List.forall_mem_singleton.2 hsecond⟩
  have hquiet : session.Quiet lines := by decide +kernel
  exact ⟨by decide, hlines, hquiet, session_agrees_with_script (by decide) hlines hquiet _⟩

end MonkeyLang
