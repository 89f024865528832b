import MonkeyLang.Proofs.Parsing.Concatenation
import MonkeyLang.Proofs.Parsing.Termination
import MonkeyLang.Proofs.Scanning.Places

/-!
# Diagnostics come in the order of the text

A fault is noticed at the current token or at the upcoming one.  So a fault at the current token could be
recorded after one that was noticed further on, and recovery does stay at a token in front of the one that
was reported.  But a parser looks at the current token for a fault only where an expression begins, and
there the current token has just been advanced to.

So there are two kinds of states.  In all of them no diagnostic is behind the upcoming token
(`ParserState.Ordered`), and where a construct is entered on its first token, none is behind the current one
either (`ParserState.Fresh`).  A state of the first kind becomes one of the second by advancing, and every
parser ends in one of the first kind, with its diagnostic on record if it is malformed (`Parser.Orders`).
-/

set_option autoImplicit false

namespace MonkeyLang

/-! ## Windows on tokens in order -/

/-- No token stands behind a later one. -/
def TokenStream.InOrder (stream : TokenStream) : Prop :=
  stream.toList.Pairwise fun first second => first.place ≤ second.place

namespace TokenStream

variable {window before after : TokenStream}

theorem headD_mem (tokens : List Token) (last : Token) : tokens.headD last ∈ tokens ++ [last] := by
  cases tokens <;> simp

theorem current_mem_toList (window : TokenStream) : window.current ∈ window.toList :=
  headD_mem _ _

theorem upcoming_mem_toList (window : TokenStream) : window.upcoming ∈ window.toList :=
  ((List.tail_sublist _).append_right _).subset (headD_mem _ _)

/-- The upcoming token is the first of those behind the current one. -/
theorem InOrder.upcoming_le_of_mem (h : window.InOrder) {token : Token}
    (hmem : token ∈ window.ahead.tail ++ [window.last]) : window.upcoming.place ≤ token.place := by
  have hpairwise : (window.ahead.tail ++ [window.last]).Pairwise
      fun first second => first.place ≤ second.place :=
    h.sublist ((List.tail_sublist _).append_right _)
  rw [upcoming]
  generalize window.ahead.tail = others at hmem hpairwise
  cases others with
  | nil =>
    obtain rfl := List.mem_singleton.1 hmem
    exact Position.le_refl _
  | cons first rest =>
    rcases List.mem_cons.1 hmem with rfl | hmem
    · exact Position.le_refl _
    · exact (List.pairwise_cons.1 hpairwise).1 token hmem

theorem InOrder.current_le_upcoming (h : window.InOrder) :
    window.current.place ≤ window.upcoming.place := by
  obtain ⟨_ | ⟨first, rest⟩, last⟩ := window
  · exact Position.le_refl _
  · exact (List.pairwise_cons.1 h).1 _ (headD_mem rest last)

/-- The upcoming token goes forward as tokens are consumed. -/
theorem InOrder.upcoming_le (h : before.InOrder) (hlast : after.last = before.last)
    (hahead : after.ahead <:+ before.ahead) : before.upcoming.place ≤ after.upcoming.place := by
  refine h.upcoming_le_of_mem ((hahead.sublist.tail.append_right _).subset ?_)
  rw [← hlast]
  exact headD_mem _ _

end TokenStream

/-! ## States with diagnostics in order -/

/-- Diagnostics are those of tokens of the stream, in its order. -/
structure Diagnostic.InOrder (stream : TokenStream) (diagnostics : List Diagnostic) : Prop where
  placed : ∀ diagnostic ∈ diagnostics, ∃ token ∈ stream.toList, diagnostic.place = token.place
  sorted : diagnostics.Pairwise fun first second => first.place ≤ second.place

namespace ParserState

/-- What is left is left of the stream, and no diagnostic is behind the upcoming token. -/
structure Ordered (stream : TokenStream) (state : ParserState) : Prop where
  last : state.window.last = stream.last
  ahead : state.window.ahead <:+ stream.ahead
  diagnostics : Diagnostic.InOrder stream state.diagnostics
  upcoming : ∀ diagnostic ∈ state.diagnostics, diagnostic.place ≤ state.window.upcoming.place

/-- No diagnostic is behind the current token either. -/
structure Fresh (stream : TokenStream) (state : ParserState) : Prop extends Ordered stream state where
  current : ∀ diagnostic ∈ state.diagnostics, diagnostic.place ≤ state.window.current.place

variable {stream : TokenStream} {state : ParserState}

theorem Ordered.sublist (h : state.Ordered stream) : state.window.toList.Sublist stream.toList := by
  rw [TokenStream.toList, TokenStream.toList, h.last]
  exact h.ahead.sublist.append (List.Sublist.refl _)

section InOrder

variable (horder : stream.InOrder)
include horder

theorem Ordered.inOrder (h : state.Ordered stream) : state.window.InOrder :=
  List.Pairwise.sublist h.sublist horder

/-- A later state without new diagnostics. -/
theorem Ordered.later (h : state.Ordered stream) {after : ParserState} (hlater : state.Later after)
    (hsame : after.diagnostics = state.diagnostics) : after.Ordered stream where
  last := hlater.last.trans h.last
  ahead := hlater.ahead.trans h.ahead
  diagnostics := hsame ▸ h.diagnostics
  upcoming diagnostic hmem := Position.le_trans (h.upcoming diagnostic (hsame ▸ hmem))
    ((h.inOrder horder).upcoming_le hlater.last hlater.ahead)

/-- The token that is advanced to was the upcoming one. -/
theorem Ordered.advance (h : state.Ordered stream) : state.advance.Fresh stream :=
  { h.later horder state.later_advance rfl with current := h.upcoming }

theorem Ordered.skip (h : state.Ordered stream) (kinds : List TokenKind) :
    (state.skip kinds).Ordered stream :=
  h.later horder (state.later_skip kinds) rfl

end InOrder

/-- A fault at a token that no diagnostic is behind, up to the upcoming one. -/
theorem Ordered.record (h : state.Ordered stream) {token : Token} (hmem : token ∈ state.window.toList)
    (hbehind : ∀ diagnostic ∈ state.diagnostics, diagnostic.place ≤ token.place)
    (hupcoming : token.place ≤ state.window.upcoming.place) (fault : Fault) :
    (state.record (.on fault token)).Ordered stream where
  last := h.last
  ahead := h.ahead
  diagnostics :=
    { placed := List.forall_mem_append.2 ⟨h.diagnostics.placed,
        List.forall_mem_singleton.2 ⟨token, h.sublist.subset hmem, rfl⟩⟩
      sorted := List.pairwise_append.2 ⟨h.diagnostics.sorted, List.pairwise_singleton _ _,
        fun diagnostic hdiagnostic other hother => by
          rw [List.mem_singleton.1 hother]
          exact hbehind diagnostic hdiagnostic⟩ }
  upcoming := List.forall_mem_append.2 ⟨h.upcoming, List.forall_mem_singleton.2 hupcoming⟩

theorem Ordered.record_upcoming (h : state.Ordered stream) (fault : Fault) :
    (state.record (.on fault state.window.upcoming)).Ordered stream :=
  h.record state.window.upcoming_mem_toList h.upcoming (Position.le_refl _) fault

theorem Fresh.record_current (h : state.Fresh stream) (horder : stream.InOrder) (fault : Fault) :
    (state.record (.on fault state.window.current)).Ordered stream :=
  h.toOrdered.record state.window.current_mem_toList h.current
    (h.inOrder horder).current_le_upcoming fault

end ParserState

/-! ## Parsers that keep the order -/

namespace Parser

open ParserState

variable {α β : Type} {stream : TokenStream} {start : ParserState → Prop}

/-- Started so, the parser ends in an ordered state; if its construct is malformed, the state is one with
the diagnostic on record. -/
def Orders (stream : TokenStream) (start : ParserState → Prop) (parser : Parser α) : Prop :=
  ∀ state, start state → parser.Meets state (fun _ after => after.Ordered stream)
    (fun diagnostic after => (after.record diagnostic).Ordered stream) fun _ => True

/-- The parser of a construct that is entered on its first token. -/
abbrev OrdersFresh (stream : TokenStream) (parser : Parser α) : Prop :=
  Orders stream (Fresh stream) parser

/-- A parser that is entered anywhere. -/
abbrev OrdersAll (stream : TokenStream) (parser : Parser α) : Prop :=
  Orders stream (Ordered stream) parser

/-- The parsers for the parts of a construct keep the order. -/
structure PartsOrder (stream : TokenStream) (parts : Parts) : Prop where
  expression : ∀ threshold, OrdersFresh stream (parts.expression threshold)
  block : OrdersAll stream parts.block

namespace Orders

variable {parser : Parser α} {next : α → Parser β}

theorem fresh (h : OrdersAll stream parser) : OrdersFresh stream parser :=
  fun state hs => h state hs.toOrdered

theorem pure (a : α) : OrdersAll stream (Pure.pure a : Parser α) :=
  fun _ => id

theorem giveUp (cause : Abort) : Orders stream start (giveUp cause : Parser α) :=
  fun _ _ => True.intro

theorem bind (h : Orders stream start parser) (h' : ∀ a, OrdersAll stream (next a)) :
    Orders stream start (parser >>= next) :=
  fun state hs => meets_bind.2 <| (h state hs).mono (fun a t => h' a t) (fun _ _ => id) fun _ => id

theorem ite {c : Prop} [Decidable c] {other : Parser α} (h : Orders stream start parser)
    (h' : Orders stream start other) : Orders stream start (if c then parser else other) := by
  split <;> assumption

/-! Looking at the window changes nothing. -/

theorem current {next : Token → Parser β} (h : ∀ token, Orders stream start (next token)) :
    Orders stream start (current >>= next) :=
  fun state hs => meets_bind.2 (h _ state hs)

theorem upcoming {next : Token → Parser β} (h : ∀ token, Orders stream start (next token)) :
    Orders stream start (upcoming >>= next) :=
  fun state hs => meets_bind.2 (h _ state hs)

theorem remaining {next : Nat → Parser β} (h : ∀ count, Orders stream start (next count)) :
    Orders stream start (remaining >>= next) :=
  fun state hs => meets_bind.2 (h _ state hs)

theorem name : OrdersAll stream name :=
  current fun _ => pure _

section Constructs

variable (horder : stream.InOrder)
include horder

/-- What is entered behind the current token is entered fresh by advancing. -/
theorem advance {next : Unit → Parser β} (h : OrdersFresh stream (next ())) :
    OrdersAll stream (advance >>= next) :=
  fun state hs => meets_bind.2 (h state.advance (hs.advance horder))

theorem advance_pure (a : α) : OrdersAll stream (Parser.advance >>= fun _ => Pure.pure a) :=
  advance horder (fresh (pure a))

theorem skipTo (kinds : List TokenKind) : OrdersAll stream (skipTo kinds) :=
  fun _ hs => hs.skip horder kinds

theorem expect (wanted : TokenKind) : OrdersAll stream (expect wanted) :=
  fun _ hs => meets_expect.2
    ⟨fun _ => (hs.advance horder).toOrdered, fun _ => hs.record_upcoming _⟩

/-! ### Constructs -/

theorem parameter : OrdersAll stream parameter :=
  bind (expect horder _) fun _ => name

theorem integer : OrdersFresh stream integer := by
  intro state hs
  rw [Parser.integer, meets_bind, meets_current]
  split
  · exact True.intro
  · rw [meets_ite, meets_ite]
    exact ⟨fun _ => True.intro, fun _ => ⟨fun _ => hs.record_current horder _, fun _ => hs.toOrdered⟩⟩

theorem closeStatement : OrdersAll stream closeStatement :=
  upcoming fun _ => ite (fun _ hs => (hs.advance horder).toOrdered) (pure _)

theorem items {item : Parser α} (h : OrdersAll stream item) :
    ∀ rounds, OrdersAll stream (items item rounds)
  | 0 => giveUp _
  | rounds + 1 => bind h fun _ => upcoming fun _ => ite
    (advance horder <| fresh <| bind (items h rounds) fun _ => pure _) (pure _)

theorem parenthesized {item : Parser α} (h : OrdersAll stream item) :
    OrdersAll stream (parenthesized item) :=
  upcoming fun _ => ite (advance_pure horder _) <|
    remaining fun _ => bind (items horder h _) fun _ => bind (expect horder _) fun _ => pure _

variable {parts : Parts} (h : PartsOrder stream parts)
include h

theorem argument : OrdersAll stream (argument parts) :=
  advance horder (h.expression _)

theorem unary : OrdersAll stream (unary parts) :=
  current fun _ => advance horder <| bind (h.expression _) fun _ => pure _

theorem group : OrdersAll stream (group parts) :=
  advance horder <| bind (h.expression _) fun _ => bind (expect horder _) fun _ => pure _

theorem conditional : OrdersAll stream (conditional parts) :=
  current fun _ => bind (expect horder _) fun _ => advance horder <| bind (h.expression _) fun _ =>
    bind (expect horder _) fun _ => bind (expect horder _) fun _ => bind h.block fun _ =>
    upcoming fun _ => ite
      (advance horder <| fresh <| bind (expect horder _) fun _ => bind h.block fun _ => pure _)
      (pure _)

theorem function : OrdersAll stream (function parts) :=
  current fun _ => bind (expect horder _) fun _ => bind (parenthesized horder (parameter horder))
    fun _ => bind (expect horder _) fun _ => bind h.block fun _ => pure _

theorem opening : ∀ kind, OrdersFresh stream (opening parts kind)
  | .reference => fresh (bind name fun _ => pure _)
  | .integer => integer horder
  | .boolean => fresh (current fun _ => pure _)
  | .unary => fresh (unary horder h)
  | .group => fresh (group horder h)
  | .conditional => fresh (conditional horder h)
  | .function => fresh (function horder h)

theorem continuation : ∀ kind left, OrdersAll stream (continuation parts kind left)
  | .binary, _ => current fun _ => advance horder <| bind (h.expression _) fun _ => pure _
  | .call, _ => current fun _ => bind (parenthesized horder (argument horder h)) fun _ => pure _

theorem climb (grammar : Grammar) (threshold : Precedence) :
    ∀ rounds left, OrdersAll stream (climb grammar parts threshold rounds left)
  | 0, _ => giveUp _
  | rounds + 1, left => by
    refine upcoming fun token => ite ?_ (pure _)
    split
    · exact pure _
    · exact advance horder <| fresh <| bind (continuation horder h _ _) fun _ =>
        climb grammar threshold rounds _

theorem expressionWith (grammar : Grammar) (threshold : Precedence) :
    OrdersFresh stream (expressionWith grammar parts threshold) := by
  intro state hs
  rw [Parser.expressionWith, meets_bind, meets_current]
  split
  · -- no part has been read yet, so no diagnostic is behind the current token
    exact hs.record_current horder _
  · have hrest := bind (opening horder h ‹_›) fun left => remaining fun count =>
      climb horder h grammar threshold (count + 1) left
    exact hrest state hs

theorem statement : OrdersFresh stream (statement parts) := by
  refine current fun token => ?_
  split
  · exact fresh <| current fun _ => bind (expect horder _) fun _ => bind name fun _ =>
      bind (expect horder _) fun _ => advance horder <| bind (h.expression _) fun _ =>
      bind (closeStatement horder) fun _ => pure _
  · exact fresh <| current fun _ => advance horder <| bind (h.expression _) fun _ =>
      bind (closeStatement horder) fun _ => pure _
  · exact current fun _ => bind (h.expression _) fun _ => bind (closeStatement horder) fun _ => pure _

/-- Every statement is entered fresh, since the loop advances in front of it. -/
theorem statementsWith (closing : List TokenKind) :
    ∀ rounds, OrdersFresh stream (statementsWith parts closing rounds)
  | 0 => giveUp _
  | rounds + 1 => by
    have hattempt : OrdersFresh stream (attempt (Parser.statement parts)) := fun state hs =>
      meets_attempt.2 ((statement horder h) state hs)
    refine current fun token => ite (fresh (pure _)) (bind hattempt ?_)
    rintro (_ | first)
    · -- skipping may stay in front of the token that was reported; advancing comes up to it
      exact bind (skipTo horder _) fun _ => current fun _ => ite (pure _) <|
        advance horder (statementsWith closing rounds)
    · exact advance horder <| bind (statementsWith closing rounds) fun _ => pure _

theorem blockWith : OrdersAll stream (blockWith parts) :=
  current fun _ => advance horder <| remaining fun _ =>
    bind (statementsWith horder h _ _) fun _ => pure _

end Constructs

end Orders

theorem order_upTo (horder : stream.InOrder) (grammar : Grammar) :
    ∀ depth, PartsOrder stream (.upTo grammar depth)
  | 0 => ⟨fun _ => .giveUp _, .giveUp _⟩
  | depth + 1 =>
    ⟨fun threshold => .expressionWith horder (order_upTo horder grammar depth) grammar threshold,
      .blockWith horder (order_upTo horder grammar depth)⟩

/-- **Every parse keeps its diagnostics in order.** -/
theorem orders_program (horder : stream.InOrder) (grammar : Grammar) :
    OrdersFresh stream (program grammar) :=
  .remaining fun _ => .remaining fun _ => .statementsWith horder (order_upTo horder grammar _) _ _

end Parser

/-! ## Source texts -/

/-- **Diagnostics come in the order of the text.**  A source text whose integers are not too long is parsed,
each of its diagnostics is at the place of a token or of the end of the text, and along the list no place
is in front of the one before it. -/
theorem parse_diagnostics_inOrder {source : String}
    (h : ∀ token ∈ Token.scan source.toList,
      token.kind = .int → token.literal.length ≤ digitLimit) :
    ∃ parsed, parse source = .ok parsed ∧
      (∀ diagnostic ∈ parsed.diagnostics, ∃ token ∈ (TokenStream.ofSource source).toList,
        diagnostic.place = token.place) ∧
      parsed.diagnostics.Pairwise fun first second => first.place ≤ second.place := by
  let start : ParserState := { window := .ofSource source }
  have hfresh : start.Fresh (.ofSource source) :=
    ⟨⟨rfl, List.suffix_refl _, ⟨List.forall_mem_nil _, .nil⟩, List.forall_mem_nil _⟩, List.forall_mem_nil _⟩
  have horders := Parser.orders_program (TokenStream.pairwise_ofSource source) .standard start hfresh
  have hends := @Parser.program_meets _ Grammar.tame_standard start rfl
    fun token htoken => Token.legible_of_mem_scan htoken (h token htoken)
  obtain ⟨parsed, hparsed, houtcome⟩ := Parser.exists_parsed
    ((horders.and hends).mono (fun _ _ => And.left) (fun _ _ => And.left) fun _ => And.right)
  have hinOrder : Diagnostic.InOrder (.ofSource source) parsed.diagnostics := by
    rcases houtcome with ⟨after, hafter, hsame⟩ | ⟨diagnostic, after, hafter, rfl⟩
    · exact hsame ▸ hafter.diagnostics
    · exact hafter.diagnostics
  exact ⟨parsed, hparsed, hinOrder.placed, hinOrder.sorted⟩

/-- A fault in a block comes before the one behind the block that makes the whole statement malformed, and
both before an integer on the next line. -/
theorem parse_diagnostics_inOrder_block :
    let source := "if (x) \x7b let \x7d else ) ;\n 9999999999999999999"
    (∀ token ∈ Token.scan source.toList,
      token.kind = .int → token.literal.length ≤ digitLimit) ∧
    (∃ parsed, parse source = .ok parsed ∧
      (∀ diagnostic ∈ parsed.diagnostics, ∃ token ∈ (TokenStream.ofSource source).toList,
        diagnostic.place = token.place) ∧
      parsed.diagnostics.Pairwise fun first second => first.place ≤ second.place) ∧
    (parse source).toOption.map (fun parsed => parsed.diagnostics) =
      some [⟨.expected .ident .rbrace, ⟨1, 14⟩⟩, ⟨.expected .lbrace .rparen, ⟨1, 21⟩⟩,
        ⟨.outOfRange "9999999999999999999", ⟨2, 2⟩⟩] := by
  intro source
  have h : ∀ token ∈ Token.scan source.toList,
      token.kind = .int → token.literal.length ≤ digitLimit := by decide +kernel
  exact ⟨h, parse_diagnostics_inOrder h, by decide +kernel⟩

end MonkeyLang
