import MonkeyLang.CommandLine.Command
import MonkeyLang.Proofs.Evaluation.Reword
import MonkeyLang.Proofs.Parsing.Relocation
import MonkeyLang.Proofs.Scanning.LineEnds
import MonkeyLang.Proofs.Session.Script

/-!
# A script and its text

A script is read with its line ends unified, while a program that is given as text is run as it is.  It makes
no difference.  The tokens of both are the same but for their places, neither parsing nor evaluation looks at
these, and so both programs show the same value and come to the same exit code.

Places are shown where there are diagnostics, and when the tokens and the tree are listed.  These are the
same, too, if there are no carriage returns but before line feeds.

* `Command.runText_of_unplaced` and `Command.runText_of_tokens` are about any two texts with the same tokens.
* `Command.runScript_agrees` is the statement about a script.
-/

set_option autoImplicit false

namespace MonkeyLang

/-! ## Source texts -/

/-- A source text with each of its line ends written as one line feed. -/
def unified (source : String) : String :=
  String.ofList (Text.unifyNewlines source.toList)

/-- A script that holds a text is read as this text, with its line ends unified. -/
theorem Command.decode_toUTF8 (source : String) : decode source.toUTF8 = some (unified source) := by
  have htext : String.fromUTF8? source.toUTF8 = some source := dif_pos source.isValidUTF8
  rw [decode, htext]
  rfl

namespace TokenStream

/-- A source text has the same tokens, up to their places, however its lines end. -/
theorem map_unplaced_toList_unified (source : String) :
    (ofSource (unified source)).toList.map Token.unplaced =
      (ofSource source).toList.map Token.unplaced := by
  rw [map_unplaced_toList, map_unplaced_toList, unified, String.toList_ofList, Token.scan, Token.scan,
    Token.map_unplaced_scanFrom_unifyNewlines source.toList {} {}]

/-- And it has them at the same places, if it has no carriage returns but before line feeds. -/
theorem ofSource_unified {source : String} (h : Text.Paired source.toList) :
    ofSource (unified source) = ofSource source := by
  rw [ofSource, ofSource, unified, String.toList_ofList]
  exact congr (congrArg mk (Token.scanFrom_unifyNewlines h {}))
    (congrArg (Token.mk .eof "") (Position.afterAll_unifyNewlines h {}))

end TokenStream

/-- Texts with the same tokens are parsed as the same, up to places. -/
theorem map_unplaced_parse {source other : String}
    (h : (TokenStream.ofSource other).toList.map Token.unplaced =
      (TokenStream.ofSource source).toList.map Token.unplaced) :
    (parse other).map Parsed.unplaced = (parse source).map Parsed.unplaced := by
  rw [parse, parse, ← parseTokens_mapPlace, ← parseTokens_mapPlace, TokenStream.mapPlace_eq_of_unplaced h]

/-! ## Programs that are read alike -/

/-- A failure is a kind of value. -/
theorem Value.isError_eq (value : Value) : value.isError = (value.kind = .error) := by
  cases value <;> simp [isError, kind]

/-- What is seen of a program that is evaluated. -/
theorem map_seen_evaluateProgram (statements : List Node) (scope : ScopeId) (heap : Heap) :
    (evaluateProgram statements scope heap).1.map Value.seen =
      (seen (evaluate depthLimit (.program statements) scope heap)).1 := by
  rw [evaluateProgram, EStateM.run]
  cases evaluate depthLimit (.program statements) scope heap <;> rfl

/-- Programs that are equal but for places show the same. -/
theorem map_seen_of_unplaced {trees others : List Node}
    (h : Node.mapTokensAll Token.unplaced others = Node.mapTokensAll Token.unplaced trees)
    (scope : ScopeId) (heap : Heap) :
    (evaluateProgram others scope heap).1.map Value.seen =
      (evaluateProgram trees scope heap).1.map Value.seen := by
  have hgist : (Node.program others).reword .gist = (Node.program trees).reword .gist := by
    have hplaces : Rewording.gist.after Token.unplaced = .gist := Rewording.gist_after fun _ => rfl
    rw [Node.reword, Node.reword, ← hplaces, ← Node.rewordAll_mapTokensAll, h, Node.rewordAll_mapTokensAll]
  rw [map_seen_evaluateProgram, map_seen_evaluateProgram,
    seen_eq_of_gist hgist (rfl : heap.reword .gist = _) depthLimit scope]

namespace Command

/-- The exit code is told from what is seen, and so is all that is shown without a listing. -/
theorem conclude_of_seen {statements others : List Node} {result result' : Except Halt Value}
    (h : result'.map Value.seen = result.map Value.seen) (debug : Bool) (source other : String)
    (heap heap' : Heap) :
    (conclude debug other (.evaluated others result' heap')).code =
        (conclude debug source (.evaluated statements result heap)).code ∧
      (debug = false → (conclude debug other (.evaluated others result' heap')).shown =
        (conclude debug source (.evaluated statements result heap)).shown) := by
  cases result with
  | error cause =>
    cases result' with
    | error cause' =>
      obtain rfl := Except.error.inj h
      refine ⟨by simp only [conclude, Ending.finish], ?_⟩
      rintro rfl
      simp only [conclude, Ending.finish, listingIf, Bool.false_eq_true, if_false]
    | ok value' => cases h
  | ok value =>
    cases result' with
    | error cause' => cases h
    | ok value' =>
      obtain ⟨hkind, hinspect⟩ := Prod.mk.inj (Except.ok.inj h)
      have herror : value'.isError = value.isError :=
        Bool.eq_iff_iff.2 (by rw [Value.isError_eq, Value.isError_eq, hkind])
      refine ⟨by simp only [conclude, Ending.finish, herror], ?_⟩
      rintro rfl
      simp only [conclude, Ending.finish, listingIf, Bool.false_eq_true, if_false, hinspect]

section

variable {source : String} (debug : Bool) (file : String)

/-- What comes of a text whose parse is given up. -/
theorem runText_of_abort {cause : Abort} (h : parse source = .error cause) :
    runText debug source file = ⟨"", .error (.aborted cause)⟩ := by
  delta runText
  rw [run_of_abort h]

/-- What comes of a text with diagnostics. -/
theorem runText_of_faults {parsed : Parsed} (h : parse source = .ok parsed)
    (hfaults : parsed.diagnostics ≠ []) : runText debug source file =
      .finish (SyntaxError.report ⟨parsed.diagnostics, some file⟩) 1 := by
  delta runText
  rw [run_of_faults h hfaults]
  rfl

/-- What comes of a text without diagnostics. -/
theorem runText_of_parse {statements : List Node} (h : parse source = .ok ⟨statements, []⟩) :
    runText debug source file = conclude debug source (.evaluated statements
      (evaluateProgram statements 0 .initial).1 (evaluateProgram statements 0 .initial).2) := by
  delta runText
  rw [run_of_parse h]

end

/-- Texts that are read alike come to the same exit code, and show the same where it is only a value. -/
theorem runText_of_unplaced {source other : String}
    (h : (parse other).map Parsed.unplaced = (parse source).map Parsed.unplaced)
    (debug : Bool) (file file' : String) :
    (runText debug other file').code = (runText debug source file).code ∧
      (debug = false → ∀ statements, parse source = .ok ⟨statements, []⟩ →
        (runText debug other file').shown = (runText debug source file).shown) := by
  cases hsource : parse source with
  | error cause =>
    cases hother : parse other with
    | ok parsed' => rw [hsource, hother] at h; cases h
    | error cause' =>
      rw [hsource, hother] at h
      obtain rfl := Except.error.inj h
      rw [runText_of_abort debug file hsource, runText_of_abort debug file' hother]
      exact ⟨rfl, fun _ _ hparse => nomatch hparse⟩
  | ok parsed =>
    cases hother : parse other with
    | error cause' => rw [hsource, hother] at h; cases h
    | ok parsed' =>
      rw [hsource, hother] at h
      obtain ⟨htrees, hfaults⟩ := Parsed.mk.inj (Except.ok.inj h)
      by_cases hsilent : parsed.diagnostics = []
      · have hsilent' : parsed'.diagnostics = [] := by
          rwa [hsilent, List.map_nil, List.map_eq_nil_iff] at hfaults
        obtain ⟨trees, diagnostics⟩ := parsed
        obtain ⟨trees', diagnostics'⟩ := parsed'
        obtain rfl : diagnostics = [] := hsilent
        obtain rfl : diagnostics' = [] := hsilent'
        rw [runText_of_parse debug file hsource, runText_of_parse debug file' hother]
        obtain ⟨hcode, hshown⟩ :=
          conclude_of_seen (map_seen_of_unplaced htrees 0 .initial) debug source other _ _
        exact ⟨hcode, fun hdebug _ _ => hshown hdebug⟩
      · have hsilent' : parsed'.diagnostics ≠ [] := fun hnil =>
          hsilent (by rwa [hnil, List.map_nil, eq_comm, List.map_eq_nil_iff] at hfaults)
        rw [runText_of_faults debug file hsource hsilent, runText_of_faults debug file' hother hsilent']
        exact ⟨rfl, fun _ _ hparse => absurd (congrArg Parsed.diagnostics (Except.ok.inj hparse)) hsilent⟩

/-- Texts with the same tokens at the same places come to the same. -/
theorem runText_of_tokens {source other : String}
    (h : TokenStream.ofSource other = TokenStream.ofSource source) (debug : Bool) (file : String) :
    runText debug other file = runText debug source file := by
  have hparse : parse other = parse source := by rw [parse, parse, h]
  have hlisting : listing other = listing source := by funext statements; rw [listing, listing, h]
  have hlisted : listingIf debug other = listingIf debug source := by
    funext statements
    rw [listingIf, listingIf, hlisting]
  have hrun : run other file 0 .initial = run source file 0 .initial := by
    rw [run, run, parseStrictly, parseStrictly, hparse]
  have hconclude : conclude debug other = conclude debug source := by
    funext outcome
    cases outcome with
    | refused error => rfl
    | evaluated statements result heap => simp only [conclude, hlisted]
  delta runText
  rw [hrun, hconclude]

/-- The name of the file is shown only above diagnostics. -/
theorem runText_file {source : String} (debug : Bool) (file file' : String) :
    runText debug source file' = runText debug source file ∨
      ∃ parsed, parse source = .ok parsed ∧ parsed.diagnostics ≠ [] ∧
        (runText debug source file').shown = SyntaxError.report ⟨parsed.diagnostics, some file'⟩ ∧
        (runText debug source file).shown = SyntaxError.report ⟨parsed.diagnostics, some file⟩ := by
  cases hsource : parse source with
  | error cause => exact .inl ((runText_of_abort _ _ hsource).trans (runText_of_abort _ _ hsource).symm)
  | ok parsed =>
    by_cases hsilent : parsed.diagnostics = []
    · obtain ⟨statements, diagnostics⟩ := parsed
      obtain rfl : diagnostics = [] := hsilent
      exact .inl ((runText_of_parse _ _ hsource).trans (runText_of_parse _ _ hsource).symm)
    · refine .inr ⟨parsed, rfl, hsilent, ?_⟩
      rw [runText_of_faults debug file' hsource hsilent, runText_of_faults debug file hsource hsilent]
      exact ⟨rfl, rfl⟩

/-! ## Scripts -/

/-- A script is the text that it is read as. -/
theorem runScript_eq {surroundings : Surroundings} {path source : String}
    (hpath : path.contains '\x00' = false) (hread : surroundings.read path = .ok source.toUTF8)
    (debug : Bool) : runScript surroundings debug path = runText debug (unified source) path := by
  rw [runScript, hpath, if_neg Bool.false_ne_true, hread]
  simp only [decode_toUTF8]

/-- **A script and its text agree.**  If a script holds a text, then running it and running the text itself
come to the same exit code, and they show the same if there are no diagnostics and nothing is listed: the
tokens of the script are those of the text.

If there are no carriage returns but before line feeds, then the tokens even stand at the same places, and all
that is shown is the same but for the name of the file, which stands above the diagnostics. -/
theorem runScript_agrees {surroundings : Surroundings} {path source : String}
    (hpath : path.contains '\x00' = false) (hread : surroundings.read path = .ok source.toUTF8)
    (debug : Bool) (file : String) :
    let script := runScript surroundings debug path
    let text := runText debug source file
    script.code = text.code ∧
    (debug = false → ∀ statements, parse source = .ok ⟨statements, []⟩ → script.shown = text.shown) ∧
    ∃ read, decode source.toUTF8 = some read ∧
      (TokenStream.ofSource read).toList.map Token.unplaced =
        (TokenStream.ofSource source).toList.map Token.unplaced ∧
      (Text.Paired source.toList → TokenStream.ofSource read = TokenStream.ofSource source ∧
        script = runText debug source path ∧
        (script = text ∨ ∃ parsed, parse source = .ok parsed ∧ parsed.diagnostics ≠ [] ∧
          script.shown = SyntaxError.report ⟨parsed.diagnostics, some path⟩ ∧
          text.shown = SyntaxError.report ⟨parsed.diagnostics, some file⟩)) := by
  intro script text
  have hscript : script = runText debug (unified source) path := runScript_eq hpath hread debug
  have htokens := TokenStream.map_unplaced_toList_unified source
  obtain ⟨hcode, hshown⟩ := runText_of_unplaced (map_unplaced_parse htokens) debug file path
  rw [← hscript] at hcode hshown
  refine ⟨hcode, hshown, unified source, decode_toUTF8 source, htokens, fun hpaired => ?_⟩
  have hsame := TokenStream.ofSource_unified hpaired
  have hscript' : script = runText debug source path := hscript.trans (runText_of_tokens hsame debug path)
  refine ⟨hsame, hscript', ?_⟩
  rw [hscript']
  exact runText_file debug file path

/-- A text whose lines end in carriage returns and line feeds, and one whose lines end in carriage returns
alone. -/
theorem runScript_agrees_returns :
    let source := "let f = fn(x) \x7b\r\n  x + 2\r\n\x7d;\r\nf(1)"
    let other := "let x = 5;\rx"
    let surroundings : Surroundings :=
      { read := fun path => .ok (if path = "source" then source else other).toUTF8 }
    Text.Paired source.toList ∧ ¬Text.Paired other.toList ∧
    runScript surroundings true "source" = runText true source "source" ∧
    (runScript surroundings true "source").code = .ok 0 ∧
    (runScript surroundings false "other").code = .ok 0 ∧
    (runScript surroundings false "other").shown = "5\n" := by
  intro source other surroundings
  have hpaired : Text.Paired source.toList := by decide +kernel
  have hsource : surroundings.read "source" = .ok source.toUTF8 := rfl
  have hother : surroundings.read "other" = .ok other.toUTF8 := rfl
  have hsilent : (parse other).toOption.map Parsed.diagnostics = some [] := by decide +kernel
  obtain ⟨statements, hparse⟩ := exists_of_diagnostics hsilent
  obtain ⟨hcode, -, _, -, -, hsame⟩ := runScript_agrees (by simp) hsource true "<string>"
  obtain ⟨hcode', hshown', -⟩ := runScript_agrees (by simp) hother false "<string>"
  refine ⟨hpaired, by decide +kernel, (hsame hpaired).2.1, ?_, ?_, ?_⟩
  · rw [hcode]
    dsimp only [source]
    rfl
  · rw [hcode']
    dsimp only [other]
    rfl
  · rw [hshown' rfl statements hparse]
    decide +kernel

end Command

end MonkeyLang
