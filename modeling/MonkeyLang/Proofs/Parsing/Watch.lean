import MonkeyLang.Parser.Program

/-!
# Watching a parse

The outcome of a parse does not tell how the parser got there: which tokens it stood on in between, and
whether each round of a loop read one.  Here parsing is defined once more, with somebody watching.  What is
seen is entered in a `Watch`: the window after every step, and for each round of the loops over statements,
at the top of a text and in blocks, the window that it begins in and the one that it ends in.

A step consumes at most one token.  So skipping behind a malformed statement, which is one step of the
parser that is not watched, is a loop here (`Watched.skipTo`).  In all else the definitions are those of the
parsers that they are named after.

`MonkeyLang.Proofs.Parsing.Progress` shows that the parse is the same, and what is seen.
-/

set_option autoImplicit false

namespace MonkeyLang

/-- A round of a loop over statements: the windows that it begins and ends in. -/
structure Round where
  start : TokenStream
  finish : TokenStream
  deriving DecidableEq, Repr

/-- Where a parser stands, and what has been seen so far, the oldest first. -/
structure Watch where
  state : ParserState
  /-- The windows after the steps. -/
  shown : List TokenStream
  /-- How many rounds began. -/
  begun : Nat := 0
  /-- The rounds that came to an end. -/
  rounds : List Round := []

/-- The parser has made a step. -/
def Watch.step (watch : Watch) (state : ParserState) : Watch :=
  { watch with state, shown := watch.shown ++ [state.window] }

/-- A round begins. -/
def Watch.beginRound (watch : Watch) : Watch :=
  { watch with begun := watch.begun + 1 }

/-- The round ends that began in the given window. -/
def Watch.endRound (watch : Watch) (start : TokenStream) : Watch :=
  { watch with rounds := watch.rounds ++ [⟨start, watch.state.window⟩] }

/-- A parser that is watched. -/
abbrev Watched (α : Type) : Type :=
  EStateM Stop Watch α

/-- The parsers for the parts of a construct, watched. -/
structure WatchedParts where
  expression : Precedence → Watched Node
  block : Watched (Token × List Node)

namespace Watched

variable {α : Type}

/-! ## Steps and rounds -/

/-- A parser that consumes at most one token, as one step. -/
def lift (parser : Parser α) : Watched α := fun watch =>
  match parser watch.state with
  | .ok a state => .ok a (watch.step state)
  | .error stop state => .error stop (watch.step state)

/-- Runs a parser to its end even if its construct is malformed. -/
def attempt (watched : Watched α) : Watched (Option α) := fun watch =>
  match watched watch with
  | .ok a after => .ok (some a) after
  | .error (.malformed diagnostic) after =>
    .ok none { after with state := after.state.record diagnostic }
  | .error (.abort cause) after => .error (.abort cause) after

/-- Moves on token by token to the next semicolon or to a token of one of the given kinds.  The number is
that of the tokens that are left. -/
def skip (kinds : List TokenKind) : Nat → Watched Unit
  | 0 => return ()
  | count + 1 => do
    let token ← lift Parser.current
    if token.kind = .semicolon || token.kind ∈ kinds then return ()
    else
      lift Parser.advance
      skip kinds count

/-- Moves on to the next semicolon, to a token of one of the given kinds, or to the end of the text. -/
def skipTo (kinds : List TokenKind) : Watched Unit := do
  skip kinds (← lift Parser.remaining)

/-- Begins a round, and remembers the window that it begins in. -/
def beginRound : Watched TokenStream := fun watch =>
  .ok watch.state.window watch.beginRound

/-- Ends the round that began in the given window. -/
def endRound (start : TokenStream) : Watched Unit := fun watch =>
  .ok () (watch.endRound start)

/-! ## Lists in parentheses -/

/-- One or more items parted by commas. -/
def items (item : Watched α) : Nat → Watched (List α)
  | 0 => lift (Parser.giveUp .endless)
  | rounds + 1 => do
    let first ← item
    if (← lift Parser.upcoming).kind = .comma then
      lift Parser.advance
      return first :: (← items item rounds)
    else return [first]

/-- A list of items in parentheses. -/
def parenthesized (item : Watched α) : Watched (List α) := do
  if (← lift Parser.upcoming).kind = .rparen then
    lift Parser.advance
    return []
  else
    let found ← items item ((← lift Parser.remaining) + 1)
    lift (Parser.expect .rparen)
    return found

/-- An argument of a call. -/
def argument (parts : WatchedParts) : Watched Node := do
  lift Parser.advance
  parts.expression .lowest

/-! ## Constructs that open or continue an expression -/

/-- An operator and its operand. -/
def unary (parts : WatchedParts) : Watched Node := do
  let token ← lift Parser.current
  lift Parser.advance
  let operand ← parts.expression .sign
  return .unary token token.literal operand

/-- An expression in parentheses. -/
def group (parts : WatchedParts) : Watched Node := do
  lift Parser.advance
  let inner ← parts.expression .lowest
  lift (Parser.expect .rparen)
  return inner

/-- A conditional. -/
def conditional (parts : WatchedParts) : Watched Node := do
  let token ← lift Parser.current
  lift (Parser.expect .lparen)
  lift Parser.advance
  let condition ← parts.expression .lowest
  lift (Parser.expect .rparen)
  lift (Parser.expect .lbrace)
  let (brace, body) ← parts.block
  if (← lift Parser.upcoming).kind = .elseWord then
    lift Parser.advance
    lift (Parser.expect .lbrace)
    let (elseBrace, elseBody) ← parts.block
    return .ifThenElse token condition brace body elseBrace elseBody
  else return .ifThen token condition brace body

/-- A function literal. -/
def function (parts : WatchedParts) : Watched Node := do
  let token ← lift Parser.current
  lift (Parser.expect .lparen)
  let parameters ← parenthesized (lift Parser.parameter)
  lift (Parser.expect .lbrace)
  let (brace, body) ← parts.block
  return .function token parameters brace body

/-- The construct that an expression opens with. -/
def opening (parts : WatchedParts) : Opening → Watched Node
  | .reference => lift Parser.reference
  | .integer => lift Parser.integer
  | .boolean => lift Parser.boolean
  | .unary => unary parts
  | .group => group parts
  | .conditional => conditional parts
  | .function => function parts

/-- An operator and its right operand. -/
def binary (parts : WatchedParts) (left : Node) : Watched Node := do
  let token ← lift Parser.current
  lift Parser.advance
  let right ← parts.expression token.kind.precedence
  return .binary token left token.literal right

/-- The arguments of a call. -/
def call (parts : WatchedParts) (callee : Node) : Watched Node := do
  let token ← lift Parser.current
  let arguments ← parenthesized (argument parts)
  return .call token callee arguments

/-- The construct that an expression is continued with. -/
def continuation (parts : WatchedParts) : Continuation → Node → Watched Node
  | .binary => binary parts
  | .call => call parts

/-! ## Expressions -/

/-- Continues an expression as long as the upcoming token binds more tightly than the threshold. -/
def climb (grammar : Grammar) (parts : WatchedParts) (threshold : Precedence) :
    Nat → Node → Watched Node
  | 0, _ => lift (Parser.giveUp .endless)
  | rounds + 1, left => do
    let token ← lift Parser.upcoming
    if threshold < token.kind.precedence then
      match grammar.continuation? token.kind with
      | none => return left
      | some kind =>
        lift Parser.advance
        climb grammar parts threshold rounds (← continuation parts kind left)
    else return left

/-- An expression whose operators all bind more tightly than the threshold. -/
def expressionWith (grammar : Grammar) (parts : WatchedParts) (threshold : Precedence) :
    Watched Node := do
  let token ← lift Parser.current
  match grammar.opening? token.kind with
  | none => lift (Parser.fail (.noOpening token.kind) token)
  | some kind =>
    let left ← opening parts kind
    climb grammar parts threshold ((← lift Parser.remaining) + 1) left

/-! ## Statements -/

/-- The statement that binds a name. -/
def binding (parts : WatchedParts) : Watched Node := do
  let token ← lift Parser.current
  lift (Parser.expect .ident)
  let identifier ← lift Parser.name
  lift (Parser.expect .assign)
  lift Parser.advance
  let value ← parts.expression .lowest
  lift Parser.closeStatement
  return .binding token identifier value

/-- The statement that gives a result. -/
def result (parts : WatchedParts) : Watched Node := do
  let token ← lift Parser.current
  lift Parser.advance
  let value ← parts.expression .lowest
  lift Parser.closeStatement
  return .result token value

/-- An expression standing as a statement. -/
def expressionStatement (parts : WatchedParts) : Watched Node := do
  let token ← lift Parser.current
  let inner ← parts.expression .lowest
  lift Parser.closeStatement
  return .expression token inner

/-- A statement. -/
def statement (parts : WatchedParts) : Watched Node := do
  match (← lift Parser.current).kind with
  | .letWord => binding parts
  | .returnWord => result parts
  | _ => expressionStatement parts

/-- The statements up to a token of one of the `closing` kinds or the end of the text.  A round begins
where a statement does, and ends where the next one may begin. -/
def statementsWith (parts : WatchedParts) (closing : List TokenKind) : Nat → Watched (List Node)
  | 0 => lift (Parser.giveUp .endless)
  | rounds + 1 => do
    let token ← lift Parser.current
    if token.kind = .eof || token.kind ∈ closing then return []
    else
      let start ← beginRound
      match ← attempt (statement parts) with
      | some first =>
        lift Parser.advance
        endRound start
        return first :: (← statementsWith parts closing rounds)
      | none =>
        skipTo closing
        -- what closes the list is left for whoever reads on behind it
        if (← lift Parser.current).kind ∈ closing then
          endRound start
          return []
        else
          lift Parser.advance
          endRound start
          statementsWith parts closing rounds

/-- A block. -/
def blockWith (parts : WatchedParts) : Watched (Token × List Node) := do
  let brace ← lift Parser.current
  lift Parser.advance
  let statements ← statementsWith parts [.rbrace] ((← lift Parser.remaining) + 1)
  return (brace, statements)

end Watched

/-- The parsers for parts that are nested to a bounded depth. -/
def WatchedParts.upTo (grammar : Grammar) : Nat → WatchedParts
  | 0 => ⟨fun _ => .lift (Parser.giveUp .endless), .lift (Parser.giveUp .endless)⟩
  | depth + 1 =>
    { expression := fun threshold watch =>
        Watched.expressionWith grammar (upTo grammar depth) threshold watch
      block := fun watch => Watched.blockWith (upTo grammar depth) watch }

/-- All statements of a text. -/
def Watched.program (grammar : Grammar) : Watched (List Node) := do
  let parts := WatchedParts.upTo grammar ((← lift Parser.remaining) + 1)
  statementsWith parts [] ((← lift Parser.remaining) + 1)

/-- The watch at the beginning of a text. -/
def Watch.start (window : TokenStream) : Watch :=
  { state := { window }, shown := [window] }

end MonkeyLang
