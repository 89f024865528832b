import MonkeyLang.Proofs.Parsing.Tandem
import MonkeyLang.Proofs.Parsing.Window
import MonkeyLang.Proofs.Scanning.Concatenation

/-!
# A text inside another one

A text is parsed by itself, and it is parsed as the first part of a longer text, where other tokens
stand behind it and where its tokens may be at other places.  As long as the parser does not see what
stands behind the text, both parses do the same: the trees are equal but for the places, and so are
the diagnostics (`Parser.twins_upTo`).

What it takes for this is collected in a `Seam`: what stands behind the text, and when a parser is far
enough from it.  That depends on how many blocks are open, since a block that is still open at the end
of the text goes on behind it.
-/

set_option autoImplicit false

namespace MonkeyLang

/-! ## Trees and diagnostics at other places -/

/-- The same diagnostic at another place. -/
def Diagnostic.mapPlace (f : Position → Position) (diagnostic : Diagnostic) : Diagnostic :=
  { diagnostic with place := f diagnostic.place }

theorem Node.mapTokensAll_eq_map (f : Token → Token) : ∀ nodes : List Node,
    mapTokensAll f nodes = nodes.map (mapTokens f)
  | [] => rfl
  | first :: rest => congrArg (first.mapTokens f :: ·) (mapTokensAll_eq_map f rest)

mutual

theorem Node.mapTokens_id : ∀ node : Node, node.mapTokens id = node
  | program statements => by rw [mapTokens, mapTokensAll_id statements]
  | reference _ | integer .. | boolean .. | foreign .. => rfl
  | unary _ _ operand => by rw [mapTokens, mapTokens_id operand, id]
  | binary _ left _ right => by rw [mapTokens, mapTokens_id left, mapTokens_id right, id]
  | ifThen _ condition _ body => by
    rw [mapTokens, mapTokens_id condition, mapTokensAll_id body, id, id]
  | ifThenElse _ condition _ body _ elseBody => by
    rw [mapTokens, mapTokens_id condition, mapTokensAll_id body, mapTokensAll_id elseBody]
    rfl
  | function token parameters brace body => by
    rw [mapTokens, mapTokensAll_id body]
    exact congrArg (function token · brace body) (List.map_id parameters)
  | call _ callee arguments => by rw [mapTokens, mapTokens_id callee, mapTokensAll_id arguments, id]
  | binding token identifier value => by
    rw [mapTokens, mapTokens_id value]
    rfl
  | result _ value => by rw [mapTokens, mapTokens_id value, id]
  | expression _ inner => by rw [mapTokens, mapTokens_id inner, id]
  | block _ statements => by rw [mapTokens, mapTokensAll_id statements, id]

theorem Node.mapTokensAll_id : ∀ nodes : List Node, mapTokensAll id nodes = nodes
  | [] => rfl
  | first :: rest => by rw [mapTokensAll, mapTokens_id first, mapTokensAll_id rest]

end

/-- The kinds of tokens that neither begin nor end a block or a statement. -/
@[simp] def TokenKind.isInner : TokenKind → Bool
  | lbrace | rbrace | semicolon => false
  | _ => true

/-! ## Seams -/

/-- Where a text is joined to what stands behind it. -/
structure Seam where
  /-- The places of the text in the joined text. -/
  place : Position → Position
  /-- The tokens behind the text. -/
  behind : List Token
  /-- What was recorded before the text in the joined text. -/
  prior : List Diagnostic
  /-- How the ends of the two texts go together. -/
  lasts : Token → Token → Prop
  /-- With these tokens left and so many blocks open, a parser is inside the text. -/
  inside : Nat → List Token → Prop

namespace Seam

/-- A token of the text in the joined text. -/
abbrev token (seam : Seam) : Token → Token :=
  Token.mapPlace seam.place

/-- A tree of the text in the joined text. -/
abbrev tree (seam : Seam) : Node → Node :=
  Node.mapTokens seam.token

/-- Statements that are read one after the other, with so many blocks open, stay inside the text. -/
structure Staying (seam : Seam) (closing : List TokenKind) (blocks : Nat) : Prop where
  ends : ∀ {tokens : List Token}, seam.inside blocks tokens →
    (∀ token ∈ tokens.head?, token.kind = .semicolon) → seam.inside blocks tokens.tail
  skips : ∀ {tokens : List Token}, seam.inside blocks tokens →
    let kept := tokens.dropWhile fun token => !(token.kind = .semicolon || token.kind ∈ closing)
    seam.inside blocks kept ∧
      ((tokens.map seam.token ++ seam.behind).dropWhile fun token =>
        !(token.kind = .semicolon || token.kind ∈ closing)) =
        kept.map seam.token ++ seam.behind

/-- Inside the text the seam is not seen, and one stays inside. -/
structure Lawful (seam : Seam) : Prop where
  seen : ∀ {blocks : Nat} {tokens : List Token} {last last' : Token}, seam.inside blocks tokens →
    seam.lasts last last' →
    (tokens.map seam.token ++ seam.behind).headD last' = seam.token (tokens.headD last)
  tail : ∀ {blocks : Nat} {tokens : List Token}, seam.inside blocks tokens →
    (tokens.map seam.token ++ seam.behind).tail = tokens.tail.map seam.token ++ seam.behind
  next : ∀ {blocks : Nat} {tokens : List Token}, seam.inside blocks tokens →
    (∀ token ∈ tokens.head?, token.kind.isInner = true) → seam.inside blocks tokens.tail
  opens : ∀ {blocks : Nat} {tokens : List Token}, seam.inside blocks tokens →
    (∀ token ∈ tokens.head?, token.kind = .lbrace) → seam.inside (blocks + 1) tokens.tail
  closes : ∀ {blocks : Nat} {tokens : List Token}, seam.inside (blocks + 1) tokens →
    (∀ token ∈ tokens.head?, token.kind = .rbrace ∨ token.kind = .eof) →
    seam.inside blocks tokens ∧ seam.inside blocks tokens.tail
  staying : ∀ blocks : Nat, seam.Staying [.rbrace] (blocks + 1)

/-! ## Corresponding states -/

/-- A state in the text corresponds to one in the joined text, both inside the text with their
current tokens. -/
structure At (seam : Seam) (blocks : Nat) (s t : ParserState) : Prop where
  inside : seam.inside blocks s.window.ahead
  ahead : t.window.ahead = s.window.ahead.map seam.token ++ seam.behind
  last : seam.lasts s.window.last t.window.last
  diagnostics : t.diagnostics = seam.prior ++ s.diagnostics.map (·.mapPlace seam.place)

/-- The states correspond, and they are inside the text even with their upcoming tokens. -/
structure Past (seam : Seam) (blocks : Nat) (s t : ParserState) : Prop extends
    At seam blocks s t where
  tail : seam.inside blocks s.window.ahead.tail

variable {seam : Seam} {blocks : Nat} {s t : ParserState}

theorem current_of_head? {token : Token} (h : token ∈ s.window.ahead.head?) :
    s.window.current = token := by
  rw [TokenStream.current, List.headD_eq_head?_getD, h, Option.getD_some]

section Lawful

variable (lawful : seam.Lawful)
include lawful

theorem At.current (h : seam.At blocks s t) :
    t.window.current = seam.token s.window.current := by
  rw [TokenStream.current, h.ahead]
  exact lawful.seen h.inside h.last

theorem Past.upcoming (h : seam.Past blocks s t) :
    t.window.upcoming = seam.token s.window.upcoming := by
  rw [TokenStream.upcoming, h.ahead, lawful.tail h.inside]
  exact lawful.seen h.tail h.last

theorem Past.advance (h : seam.Past blocks s t) : seam.At blocks s.advance t.advance := by
  refine ⟨h.tail, ?_, h.last, h.diagnostics⟩
  rw [ParserState.ahead_advance, h.ahead, lawful.tail h.inside]
  rfl

/-- Behind a token that is no brace and no semicolon one is still inside. -/
theorem At.past (h : seam.At blocks s t) (hkind : s.window.current.kind.isInner = true) :
    seam.Past blocks s t := by
  refine ⟨h, lawful.next h.inside fun token htoken => ?_⟩
  rw [← current_of_head? htoken]
  exact hkind

/-- The upcoming token can be made the current one if it is no brace and no semicolon. -/
theorem Past.onto (h : seam.Past blocks s t) (hkind : s.window.upcoming.kind.isInner = true) :
    seam.Past blocks s.advance t.advance :=
  (h.advance lawful).past lawful hkind

theorem At.enter (h : seam.At blocks s t) (hkind : s.window.current.kind = .lbrace) :
    seam.At (blocks + 1) s.advance t.advance := by
  refine ⟨lawful.opens h.inside fun token htoken => ?_, ?_, h.last, h.diagnostics⟩
  · rw [← current_of_head? htoken]
    exact hkind
  · rw [ParserState.ahead_advance, h.ahead, lawful.tail h.inside]
    rfl

theorem At.leave (h : seam.At (blocks + 1) s t)
    (hkind : s.window.current.kind = .rbrace ∨ s.window.current.kind = .eof) :
    seam.Past blocks s t := by
  have hinside := lawful.closes h.inside fun token htoken => by
    rw [← current_of_head? htoken]
    exact hkind
  exact ⟨⟨hinside.1, h.ahead, h.last, h.diagnostics⟩, hinside.2⟩

end Lawful

/-- The states correspond, and the next statement starts inside the text, unless the current token is
the semicolon that may be the last token of the text. -/
def Done (seam : Seam) (blocks : Nat) (s t : ParserState) : Prop :=
  seam.At blocks s t ∧
    (s.window.current.kind = .semicolon ∨ seam.inside blocks s.window.ahead.tail)

theorem At.record (h : seam.At blocks s t) (diagnostic : Diagnostic) :
    seam.At blocks (s.record diagnostic) (t.record (diagnostic.mapPlace seam.place)) := by
  refine ⟨h.inside, h.ahead, h.last, ?_⟩
  rw [ParserState.diagnostics_record, ParserState.diagnostics_record, h.diagnostics,
    List.map_append, List.append_assoc]
  rfl

theorem At.skip {closing : List TokenKind} (staying : seam.Staying closing blocks)
    (h : seam.At blocks s t) : seam.At blocks (s.skip closing) (t.skip closing) := by
  obtain ⟨hinside, hahead⟩ := staying.skips h.inside
  refine ⟨hinside, ?_, h.last, h.diagnostics⟩
  show t.window.ahead.dropWhile _ = _
  rw [h.ahead]
  exact hahead

theorem Done.advance {closing : List TokenKind} (lawful : seam.Lawful)
    (staying : seam.Staying closing blocks) (h : seam.Done blocks s t) :
    seam.At blocks s.advance t.advance := by
  have htail : seam.inside blocks s.window.ahead.tail := by
    refine h.2.elim (fun hmark => staying.ends h.1.inside fun token htoken => ?_) id
    rw [← current_of_head? htoken]
    exact hmark
  exact Past.advance lawful ⟨h.1, htail⟩

/-- Behind the semicolon that the skipping has stopped at, one is still inside. -/
theorem At.resume {closing : List TokenKind} (lawful : seam.Lawful)
    (staying : seam.Staying closing blocks) (h : seam.At blocks s t)
    (hopen : (s.skip closing).window.current.kind ∉ closing) :
    seam.At blocks (s.skip closing).advance (t.skip closing).advance := by
  have hskip := h.skip staying
  refine Past.advance lawful ⟨hskip, staying.ends hskip.inside fun token htoken => ?_⟩
  rw [current_of_head? htoken] at hopen
  exact ParserState.skip_stops htoken hopen

end Seam

end MonkeyLang
