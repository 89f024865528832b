import MonkeyLang.Token

/-!
# Reading tokens off a text

The tokens of a text are read from left to right, each as long as it can be.

* A run of ASCII digits is an integer token, and a run of ASCII letters and underscores is a word:
  a reserved word if the whole run is one, an identifier otherwise.
* The operators of two characters go before those of one, so `<=` is one token and `===` is `==`
  followed by `=`.
* Spaces, tabs, carriage returns and line feeds stand between tokens and belong to none.
* Every other character is an `illegal` token by itself.  No text is refused here: what an illegal
  token means is for the parser to say.

`scanFrom` walks over the text one character at a time.  Where a token starts, `lexeme` says what
kind it is and how many of the following characters belong to it, and the walk passes over these
without looking at them; so the place of each token is the place that the walk has reached, and the
walk is a recursion on the text itself.

A `TokenStream` is what is left of the tokens of a text while they are being consumed.  It never
runs dry: behind the last token there is an `eof` token at the end of the text, as often as it is
asked for.
-/

set_option autoImplicit false

namespace MonkeyLang

/-! ## Classes of characters -/

namespace Token

/-- The characters that separate tokens. -/
def isSpace (c : Char) : Bool :=
  c = ' ' || c = '\t' || c = '\r' || c = '\n'

/-- The characters that integer tokens consist of. -/
def isDigit (c : Char) : Bool :=
  '0' ≤ c && c ≤ '9'

/-- The characters that words consist of. -/
def isLetter (c : Char) : Bool :=
  ('a' ≤ c && c ≤ 'z') || ('A' ≤ c && c ≤ 'Z') || c = '_'

end Token

namespace TokenKind

/-- The operators of two characters. -/
def ofPair? : Char → Char → Option TokenKind
  | '=', '=' => some eq
  | '!', '=' => some neq
  | '<', '=' => some lte
  | '>', '=' => some gte
  | '&', '&' => some land
  | '|', '|' => some lor
  | _, _ => none

/-- The operators and delimiters of one character. -/
def ofSingle? : Char → Option TokenKind
  | '=' => some assign | '+' => some plus | '-' => some minus | '!' => some bang
  | '*' => some asterisk | '/' => some slash
  | '<' => some lt | '>' => some gt | '&' => some band | '|' => some bor
  | ',' => some comma | ';' => some semicolon
  | '(' => some lparen | ')' => some rparen | '{' => some lbrace | '}' => some rbrace
  | _ => none

end TokenKind

/-! ## One token -/

namespace Token

/-- The kind of the token that starts with `c`, and how many characters of what follows belong to
it.  It is asked of a character that is no space. -/
def lexeme (c : Char) (rest : List Char) : TokenKind × Nat :=
  if isDigit c then (.int, (rest.takeWhile isDigit).length)
  else if isLetter c then
    let word := rest.takeWhile isLetter
    (.ofWord (String.ofList (c :: word)), word.length)
  else match rest.head?.bind (TokenKind.ofPair? c) with
    | some kind => (kind, 1)
    | none => ((TokenKind.ofSingle? c).getD .illegal, 0)

/-! ## All tokens -/

/-- The tokens of a text that starts at `place`, except that its first characters, as many as the
number says, belong to a token that is already read. -/
def scanFrom : Nat → Position → List Char → List Token
  | _, _, [] => []
  | inside + 1, place, c :: rest => scanFrom inside (place.after c) rest
  | 0, place, c :: rest =>
    if isSpace c then scanFrom 0 (place.after c) rest
    else
      let (kind, more) := lexeme c rest
      ⟨kind, String.ofList (c :: rest.take more), place⟩ :: scanFrom more (place.after c) rest

/-- The tokens of a text. -/
def scan (text : List Char) : List Token :=
  scanFrom 0 {} text

/-- The token that stands for the end of a text. -/
def endOf (text : List Char) : Token :=
  ⟨.eof, "", text.foldl Position.after {}⟩

end Token

/-! ## Consuming tokens -/

/-- The tokens that are still to be consumed, and the one behind all of them. -/
structure TokenStream where
  ahead : List Token
  last : Token
  deriving DecidableEq, Repr, Inhabited

namespace TokenStream

/-- All tokens of a source text. -/
def ofSource (source : String) : TokenStream :=
  ⟨Token.scan source.toList, Token.endOf source.toList⟩

/-- The token that is consumed next. -/
def current (stream : TokenStream) : Token :=
  stream.ahead.headD stream.last

/-- The token after the current one. -/
def upcoming (stream : TokenStream) : Token :=
  stream.ahead.tail.headD stream.last

/-- Consumes the current token, unless it is the last. -/
def advance (stream : TokenStream) : TokenStream :=
  { stream with ahead := stream.ahead.tail }

/-- The tokens up to the end of the text, with the token that stands for the end. -/
def toList (stream : TokenStream) : List Token :=
  stream.ahead ++ [stream.last]

@[simp] theorem current_advance (stream : TokenStream) :
    stream.advance.current = stream.upcoming := rfl

/-- The current token and, after consuming it, the same again, until `count` tokens are read. -/
def read : Nat → TokenStream → List Token
  | 0, _ => []
  | count + 1, stream => stream.current :: read count stream.advance

end TokenStream

/-! Longest match, on the texts where it shows: a run of three operator characters, digits that
touch letters, and a word that starts with a reserved one. -/

example : (Token.scan ['=', '=', '=']).map (·.kind) = [.eq, .assign] := by decide +kernel

example : (Token.scan ['1', 'a', '2']).map (·.literal) = ["1", "a", "2"] := by decide +kernel

example : (Token.scan ['i', 'f', 'f', 'y']).map (·.kind) = [.ident] := by decide +kernel

end MonkeyLang
