import MonkeyLang.Proofs.Evaluation.Division
import MonkeyLang.Proofs.Evaluation.Origin
import MonkeyLang.Proofs.Rendering.RoundTrip

/-!
# What is shown of a value can be read back

A truth value is shown as its word, an integer as its numeral with a sign in front if it is negative, and a
function as a literal that is spread over several lines.  Each of these is the text of an expression, and
evaluating the expression gives the value again, or a function that looks the same.

* Functions come from literals of what was parsed (`recordAll_madeOf`), and so their parameters and bodies are
  valid (`Value.valid_of_madeOf`).
* `parse_inspect_function`, `parse_inspect_boolean` and `parse_inspect_integer` say what the texts are parsed
  as.  The numeral of the least word is out of range without its sign.
* `inspect_reads_back` puts this together for all that is evaluated.
-/

set_option autoImplicit false

namespace MonkeyLang

open Token

/-! ## Valid nodes -/

namespace Node

/-- The node is one that is met in evaluating a program that is parsed. -/
def Valid : Node → Prop
  | program statements | block _ statements => ValidStatements statements
  | node => node.ValidExpression ∨ node.ValidStatement

theorem ValidExpression.valid {node : Node} (h : node.ValidExpression) : node.Valid := by
  cases node with
  | program _ | block _ _ => exact h.elim
  | _ => exact .inl h

theorem ValidStatement.valid {node : Node} (h : node.ValidStatement) : node.Valid := by
  cases node with
  | program _ | block _ _ => exact h.elim
  | _ => exact .inr h

theorem validStatements_iff {trees : List Node} :
    ValidStatements trees ↔ ∀ tree ∈ trees, tree.ValidStatement := by
  induction trees with
  | nil => simp [ValidStatements]
  | cons first rest ih => simp [ValidStatements, ih]

theorem ValidExpression.parts {node : Node} (h : node.ValidExpression) :
    ∀ part ∈ node.parts, part.Valid := by
  cases node with
  | reference _ | integer _ _ | boolean _ _ => exact List.forall_mem_nil _
  | unary _ _ operand => exact List.forall_mem_singleton.2 (ValidExpression.valid h.2)
  | binary _ left _ right =>
    exact List.forall_mem_cons.2
      ⟨ValidExpression.valid h.2.1, List.forall_mem_singleton.2 (ValidExpression.valid h.2.2)⟩
  | ifThen _ condition brace body =>
    exact List.forall_mem_cons.2 ⟨ValidExpression.valid h.1, List.forall_mem_singleton.2 h.2⟩
  | ifThenElse _ condition brace body elseBrace elseBody =>
    exact List.forall_mem_cons.2 ⟨ValidExpression.valid h.1,
      List.forall_mem_cons.2 ⟨h.2.1, List.forall_mem_singleton.2 h.2.2⟩⟩
  | function _ parameters brace body => exact List.forall_mem_singleton.2 h.2.2
  | call _ callee arguments =>
    exact List.forall_mem_cons.2 ⟨ValidExpression.valid h.1,
      fun argument hargument => (validExpressions_iff.1 h.2 argument hargument).valid⟩
  | _ => exact h.elim

theorem ValidStatement.parts {node : Node} (h : node.ValidStatement) :
    ∀ part ∈ node.parts, part.Valid := by
  cases node with
  | binding _ _ value => exact List.forall_mem_singleton.2 (ValidExpression.valid h.2.2)
  | result _ value => exact List.forall_mem_singleton.2 (ValidExpression.valid h.2)
  | expression _ inner => exact List.forall_mem_singleton.2 (ValidExpression.valid h)
  | _ => exact h.elim

/-- Validity passes from nodes to their parts. -/
theorem hereditary_valid : Hereditary Valid := by
  intro node hnode
  have hstatements {statements : List Node} (h : ValidStatements statements) :
      ∀ statement ∈ statements, statement.Valid :=
    fun statement hstatement => (validStatements_iff.1 h statement hstatement).valid
  cases node with
  | program _ | block _ _ => exact hstatements hnode
  | _ =>
    rcases hnode with h | h
    · exact h.parts
    · exact h.parts

end Node

/-- A function from a valid literal has valid parameters and a valid body. -/
theorem Value.valid_of_madeOf {stamp : Nat} {closure : Closure}
    (h : (Value.function stamp closure).MadeOf Node.Valid) :
    (∀ parameter ∈ closure.parameters, parameter.Valid) ∧ Node.ValidStatements closure.body := by
  obtain ⟨token, ⟨-, hparameters, hbody⟩ | hstatement⟩ := h
  · exact ⟨hparameters, hbody⟩
  · exact hstatement.elim

/-! ## What the texts are parsed as -/

/-- A text that is derived from an expression is parsed as the expression. -/
theorem parse_of_written_expression {source : String} {stratum : Stratum} {tree : Node}
    (h : Written (.expression stratum tree) (scan source.toList) []) :
    ∃ first, parse source = .ok ⟨[.expression first tree], []⟩ := by
  have hle : Stratum.disjunction.level ≤ stratum.level := by cases stratum <;> decide
  have hends : EndsList [] := by rintro _ ⟨⟩
  obtain ⟨first, hstatement⟩ := Node.written_expression
    ⟨.bare (h.derives.loosen hle) (hends.settled _), h.legible⟩
  have hwritten : Written (.statements [.expression first tree]) (scan source.toList) [] :=
    ⟨.someStatements hstatement.derives .noStatements, hstatement.legible⟩
  exact ⟨first, parse_of_written hwritten⟩

/-- Statements may stand on lines of their own between the braces of a block. -/
theorem Node.ReadableStatements.lines {body : List Node} (h : ReadableStatements body)
    (place : Position) : ∃ brace trees, skeletons trees = skeletons body ∧ Written (.block brace trees)
      (scanFrom 0 place ('{' :: '\n' :: ((renderStatements body).toList ++ ['\n', '}']))) [] := by
  have hends (place : Position) : EndsList (scanFrom 0 place ['\n', '}']) := head?_cons rfl
  obtain ⟨trees, place', hskeletons, h⟩ :=
    h ['\n', '}'] (apart_cons _ (by decide)) hends ((place.after '{').after '\n')
  rw [scanFrom_lone (c := '{') rfl fun _ => rfl]
  refine ⟨_, trees, hskeletons, .block rfl h.derives rfl, .cons ?_ (h.legible.trans (.cons ?_ .refl))⟩
  · rintro ⟨⟩
  · rintro ⟨⟩

/-- What is shown of a function is a literal with its parameters and its body. -/
theorem parse_inspect_function {closure : Closure}
    (hparameters : ∀ parameter ∈ closure.parameters, parameter.Valid)
    (hbody : Node.ValidStatements closure.body) (stamp : Nat) :
    ∃ first word names brace body,
      parse (Value.function stamp closure).inspect =
        .ok ⟨[.expression first (.function word names brace body)], []⟩ ∧
      names.map (·.name) = closure.parameters.map (·.name) ∧
      Node.skeletons body = Node.skeletons closure.body := by
  have htext : (Value.function stamp closure).inspect.toList =
      "fn".toList ++ '(' :: ((Identifier.renderAll closure.parameters).toList ++ ')' :: ' ' :: '{' ::
        '\n' :: ((Node.renderStatements closure.body).toList ++ ['\n', '}'])) := by
    simp [Value.inspect]
  obtain ⟨place, names, hnames, hlist, hlegible⟩ := Node.written_parameters hparameters
    (' ' :: '{' :: '\n' :: ((Node.renderStatements closure.body).toList ++ ['\n', '}']))
    ((Position.afterAll {} "fn".toList).after '(')
  rw [scanFrom_space] at hlist hlegible
  obtain ⟨brace, body, hskeletons, hblock⟩ :=
    (Node.readableStatements closure.body hbody).lines (place.after ' ')
  have hwritten : Written
      (.expression .applied (.function ⟨.function, "fn", {}⟩ names brace body))
      (scan (Value.function stamp closure).inspect.toList) [] := by
    rw [htext, scan, scanFrom_reserved "fn" .function (by decide) rfl (apart_cons _ (by decide)),
      scanFrom_lone (c := '(') rfl fun _ => rfl]
    refine ⟨.ofTighter (.function rfl rfl hlist hblock.derives),
      .cons ?_ (.cons ?_ (hlegible.trans hblock.legible))⟩
    · rintro ⟨⟩
    · rintro ⟨⟩
  obtain ⟨first, hparse⟩ := parse_of_written_expression hwritten
  have hnames := congrArg (List.map Identifier.name) hnames
  rw [List.map_map, List.map_map] at hnames
  exact ⟨first, _, names, brace, body, hparse, hnames, hskeletons⟩

/-- A function looks the same if it has the same parameters and, but for its tokens, the same body. -/
theorem Value.inspect_function_congr {closure : Closure} {names : List Identifier} {body : List Node}
    (stamp : Nat) (hnames : names.map (·.name) = closure.parameters.map (·.name))
    (hvalid : Node.ValidStatements body) (hbody : Node.ValidStatements closure.body)
    (hskeletons : Node.skeletons body = Node.skeletons closure.body) (stamp' : Nat) (brace : Token)
    (scope : ScopeId) : (Value.function stamp' ⟨names, brace, body, scope⟩).inspect =
      (Value.function stamp closure).inspect := by
  rw [inspect, inspect, Identifier.renderAll, Identifier.renderAll, hnames,
    Node.renderStatements_eq_of_skeletons _ _ hvalid hbody hskeletons]

/-- What is shown of a truth value is its word. -/
theorem parse_inspect_boolean (value : Bool) : ∃ first word,
    parse (Value.boolean value).inspect = .ok ⟨[.expression first (.boolean word value)], []⟩ := by
  cases value with
  | true => exact ⟨⟨.trueWord, "true", {}⟩, ⟨.trueWord, "true", {}⟩, rfl⟩
  | false => exact ⟨⟨.falseWord, "false", {}⟩, ⟨.falseWord, "false", {}⟩, rfl⟩

theorem Node.eq_integer_of_skeleton {tree : Node} {token : Token} {value : Int}
    (h : tree.skeleton = (integer token value).skeleton) : ∃ token', tree = integer token' value := by
  cases tree with
  | integer token' value' => exact ⟨token', congrArg (integer token') (Node.integer.inj h).2⟩
  | _ => cases h

/-- A numeral is written as an integer. -/
theorem written_numeral {n : Nat} (hrange : n ≤ Parser.largestInteger) (place : Position) :
    ∃ token, Written (.expression .applied (.integer token n)) (scanFrom 0 place n.repr.toList) [] := by
  have hreadable : (Node.integer default n).Readable :=
    Node.readable_integer (Int.natCast_nonneg n) (Int.ofNat_le.2 hrange)
  obtain ⟨tree, place', hskeleton, hwritten⟩ := hreadable [] (by rintro _ ⟨⟩) place
  obtain ⟨token, rfl⟩ := Node.eq_integer_of_skeleton hskeleton
  rw [List.append_nil] at hwritten
  exact ⟨token, hwritten⟩

/-- What is shown of an integer amounts to the integer, unless it is the least one. -/
theorem parse_inspect_integer {value : Int} (hrange : Word.InRange value) (hne : value ≠ Word.least)
    (stamp : Nat) : ∃ first tree,
      parse (Value.integer stamp value).inspect = .ok ⟨[.expression first tree], []⟩ ∧
      tree.arithmeticDepth ≤ 2 ∧ ∀ heap scope, AmountsTo heap scope tree value := by
  rw [Word.InRange] at hrange
  rw [Word.least] at hne
  cases value with
  | ofNat n =>
    have hn : n ≤ Parser.largestInteger := by
      rw [Int.ofNat_eq_natCast] at hrange
      rw [Parser.largestInteger]
      omega
    obtain ⟨token, hwritten⟩ := written_numeral hn {}
    obtain ⟨first, hparse⟩ := parse_of_written_expression hwritten
    exact ⟨first, _, hparse, Nat.le_succ 1, fun _ _ => .literal hrange⟩
  | negSucc n =>
    have hn : n + 1 ≤ Parser.largestInteger := by
      rw [Parser.largestInteger]
      omega
    obtain ⟨token, hwritten⟩ := written_numeral hn (Position.after {} '-')
    have htext : (Value.integer stamp (.negSucc n)).inspect.toList = '-' :: (n + 1).repr.toList := by
      rw [show (Value.integer stamp (.negSucc n)).inspect = "-" ++ (n + 1).repr from rfl,
        String.toList_append]
      rfl
    have hsigned : Written (.expression .signed
        (.unary ⟨.minus, "-", {}⟩ "-" (.integer token (n + 1 : Nat))))
        (scan (Value.integer stamp (.negSucc n)).inspect.toList) [] := by
      rw [scan, htext, scanFrom_lone (c := '-') rfl fun _ => rfl]
      refine ⟨.unary (.inr rfl) (hwritten.derives.loosen (by decide)), .cons ?_ hwritten.legible⟩
      rintro ⟨⟩
    obtain ⟨first, hparse⟩ := parse_of_written_expression hsigned
    refine ⟨first, _, hparse, Nat.le_refl 2, fun _ _ => .negation (.literal ?_)⟩
    rw [Word.InRange]
    omega

/-! ## Reading back -/

open Evaluation in
/-- A program of one expression comes to what the expression comes to. -/
theorem evaluate_program_expression {depth : Nat} {tree : Node} {scope : ScopeId} {heap after : Heap}
    {value : Value} (first : Token) (h : evaluate depth tree scope heap = .ok value after)
    (hplain : value.Plain) :
    evaluate (depth + 2) (.program [.expression first tree]) scope heap = .ok value after := by
  have hexpression : evaluate (depth + 1) (.expression first tree) scope heap = .ok value after := h
  have hstatements : (evaluate (depth + 1)).statements scope .null [.expression first tree] heap =
      .ok value after := andThen_plain hexpression hplain
  refine (bind_ok hstatements).trans ?_
  rw [hplain.unwrap_eq]
  rfl

/-- **What is shown of a value can be read back.**  Let any programs that were parsed be evaluated one after
the other, on record.  Whatever function a node comes to at any moment, the text that is shown of it is parsed
without a diagnostic, as one expression that is a function literal with the same parameters and, but for its
tokens, the same body.  Evaluated anywhere, it gives a function that looks the same.

And the text of a truth value, or of an integer that is not the least one, is parsed without a diagnostic, as
a program that comes to this value. -/
theorem inspect_reads_back :
    (∀ depth node scope, Follows (record depth node scope) (evaluate depth node scope)) ∧
    (∀ tasks : List Task,
      (∀ task ∈ tasks, ∃ source parsed, parse source = .ok parsed ∧ task.node = parsed.program) →
      ∀ moment ∈ (recordAll tasks { heap := .initial }).moments, ∀ node stamp closure,
        moment.deed = .evaluated node (.function stamp closure) →
        ∃ first word names brace body,
          let literal := Node.function word names brace body
          parse (Value.function stamp closure).inspect = .ok ⟨[.expression first literal], []⟩ ∧
          names.map (·.name) = closure.parameters.map (·.name) ∧
          Node.skeletons body = Node.skeletons closure.body ∧
          ∀ depth scope heap, ∃ stamp' closure' after,
            evaluate (depth + 3) (.program [.expression first literal]) scope heap =
              .ok (.function stamp' closure') after ∧
            (Value.function stamp' closure').inspect = (Value.function stamp closure).inspect) ∧
    (∀ value : Bool, ∃ trees, parse (Value.boolean value).inspect = .ok ⟨trees, []⟩ ∧
      ∀ depth scope heap,
        evaluate (depth + 3) (.program trees) scope heap = .ok (.boolean value) heap) ∧
    ∀ stamp value, Word.InRange value → value ≠ Word.least →
      ∃ trees, parse (Value.integer stamp value).inspect = .ok ⟨trees, []⟩ ∧
        ∀ depth scope heap, ∃ stamp' after,
          evaluate (depth + 4) (.program trees) scope heap = .ok (.integer stamp' value) after := by
  refine ⟨follows_record, fun tasks hparsed moment hmoment node stamp closure hdeed => ?_,
    fun value => ?_, fun stamp value hrange hne => ?_⟩
  · have hvalid : ∀ task ∈ tasks, task.node.Valid := by
      intro task htask
      obtain ⟨source, parsed, hparse, hnode⟩ := hparsed task htask
      rw [hnode]
      exact valid_of_parse hparse
    have hstart : Record.MadeOf Node.Valid { heap := .initial } :=
      ⟨Heap.holds_initial _, by rintro _ ⟨⟩⟩
    have hmade := (recordAll_madeOf Node.hereditary_valid hvalid hstart).moments moment hmoment
    rw [hdeed] at hmade
    obtain ⟨hparameters, hbody⟩ := Value.valid_of_madeOf hmade.2
    obtain ⟨first, word, names, brace, body, hparse, hnames, hskeletons⟩ :=
      parse_inspect_function hparameters hbody stamp
    obtain ⟨hliteral, -⟩ := valid_of_parse hparse
    have hsame := Value.inspect_function_congr stamp hnames hliteral.2.2 hbody hskeletons
    refine ⟨first, word, names, brace, body, hparse, hnames, hskeletons, fun depth scope heap => ?_⟩
    have hrun : evaluate (depth + 1) (.function word names brace body) scope heap =
        .ok (.function heap.stamps ⟨names, brace, body, scope⟩)
          { heap with stamps := heap.stamps + 1 } := rfl
    exact ⟨_, _, _, evaluate_program_expression first hrun rfl, hsame heap.stamps brace scope⟩
  · obtain ⟨first, word, hparse⟩ := parse_inspect_boolean value
    refine ⟨_, hparse, fun depth scope heap => ?_⟩
    have hrun : evaluate (depth + 1) (.boolean word value) scope heap = .ok (.boolean value) heap := rfl
    exact evaluate_program_expression first hrun rfl
  · obtain ⟨first, tree, hparse, hdepth, hamount⟩ := parse_inspect_integer hrange hne stamp
    refine ⟨_, hparse, fun depth scope heap => ?_⟩
    obtain ⟨stamp', after, hrun, -⟩ := (hamount heap scope).evaluate_ok
      (Nat.le_trans hdepth (Nat.le_add_left 2 depth)) rfl
    rw [Word.wrap_eq_of_inRange hrange] at hrun
    exact ⟨stamp', after, evaluate_program_expression first hrun rfl⟩

/-- A function that is dropped as soon as it is called, and a negative integer. -/
theorem inspect_reads_back_dropped :
    let word (kind : TokenKind) (literal : String) (column : Int) : Token :=
      ⟨kind, literal, ⟨1, column⟩⟩
    let closure : Closure := ⟨[⟨word .ident "x" 4, "x"⟩], word .lbrace "\x7b" 7,
      [.binding (word .letWord "let" 9) ⟨word .ident "y" 13, "y"⟩
        (.unary (word .minus "-" 17) "-" (.reference ⟨word .ident "x" 18, "x"⟩))], 0⟩
    let literal := Node.function (word .function "fn" 1) closure.parameters closure.brace closure.body
    let parsed : Parsed := ⟨[.expression (word .function "fn" 1)
      (.call (word .lparen "(" 21) literal [.integer (word .int "02" 22) 2])], []⟩
    let tasks : List Task := [⟨9, parsed.program, 0⟩]
    parse "fn(x) \x7b let y = -x \x7d(02)" = .ok parsed ∧
    (∃ moment ∈ (recordAll tasks { heap := .initial }).moments,
      moment.deed = .evaluated literal (.function 0 closure)) ∧
    (∃ first word names brace body, parse "fn(x) \x7b\nlet y = (-x);\n\x7d" =
        .ok ⟨[.expression first (.function word names brace body)], []⟩ ∧
      Node.skeletons body = Node.skeletons closure.body) ∧
    Word.InRange (-5) ∧ -5 ≠ Word.least ∧
    ∃ trees, parse "-5" = .ok ⟨trees, []⟩ ∧ ∃ stamp after,
      evaluate 4 (.program trees) 0 .initial = .ok (.integer stamp (-5)) after := by
  intro word closure literal parsed tasks
  have hparse : parse "fn(x) \x7b let y = -x \x7d(02)" = .ok parsed := rfl
  have hparsed : ∀ task ∈ tasks, ∃ source parsed, parse source = .ok parsed ∧
      task.node = parsed.program := List.forall_mem_singleton.2 ⟨_, parsed, hparse, rfl⟩
  obtain ⟨moment, hmoment, hdeed⟩ : ∃ moment ∈ (recordAll tasks { heap := .initial }).moments,
      moment.deed = .evaluated literal (.function 0 closure) :=
    ⟨_, List.mem_of_getElem? (i := 0) rfl, rfl⟩
  obtain ⟨-, hfunctions, -, hintegers⟩ := inspect_reads_back
  obtain ⟨first, start, names, brace, body, hliteral, -, hbody, -⟩ :=
    hfunctions tasks hparsed moment hmoment literal 0 closure hdeed
  obtain ⟨trees, hinteger, hruns⟩ := hintegers 0 (-5) (by decide) (by decide)
  exact ⟨hparse, ⟨moment, hmoment, hdeed⟩, ⟨first, start, names, brace, body, hliteral, hbody⟩,
    by decide, by decide, trees, hinteger, hruns 0 0 .initial⟩

/-- The least integer is shown as a numeral that is out of range, behind a sign. -/
example : (parse (Value.integer 0 Word.least).inspect).toOption.map
    (fun parsed => parsed.diagnostics.map Diagnostic.fault) =
      some [.outOfRange "9223372036854775808"] := by
  decide +kernel

end MonkeyLang
