import MonkeyLang.Text.Quoted

/-!
# Tokens

A program text is read as a list of *tokens*.  A token has a kind, the text that it was read from,
and the place where that text starts.

* `Position` is a place: a line and a column, both counted from one.  The columns count characters.
* `TokenKind` lists the kinds.  `TokenKind.name` is the kind's own name; `TokenKind.shown` is what a
  diagnostic calls it, which is the text itself for the operators and delimiters, whose text is
  always the same, and the name for all the others.
* `Token.same` is the equality of tokens that the language goes by: kind and text have to agree, the
  places do not.  `Token.unplaced` is the view that it is the equality of.
-/

set_option autoImplicit false

namespace MonkeyLang

/-! ## Places -/

/-- A place in a text. -/
structure Position where
  line : Int := 1
  column : Int := 1
  deriving DecidableEq, Repr, Inhabited

/-- The place right after a character that stands at `place`: a line feed ends its line. -/
def Position.after (place : Position) (c : Char) : Position :=
  if c = '\n' then ⟨place.line + 1, 1⟩ else ⟨place.line, place.column + 1⟩

/-! ## Kinds -/

/-- The kinds of token.  A character that starts no token of the language is a token of the kind
`illegal`, and the end of the text is one of the kind `eof`. -/
inductive TokenKind where
  | illegal | eof
  | ident | int
  | assign | plus | minus | bang | asterisk | slash
  | lt | lte | gt | gte | eq | neq
  | land | lor | band | bor
  | comma | semicolon | lparen | rparen | lbrace | rbrace
  | function | letWord | trueWord | falseWord | ifWord | elseWord | returnWord
  deriving DecidableEq, Repr, Inhabited

namespace TokenKind

/-- Every kind, once. -/
def all : List TokenKind :=
  [illegal, eof, ident, int, assign, plus, minus, bang, asterisk, slash, lt, lte, gt, gte, eq, neq,
   land, lor, band, bor, comma, semicolon, lparen, rparen, lbrace, rbrace, function, letWord,
   trueWord, falseWord, ifWord, elseWord, returnWord]

theorem mem_all (kind : TokenKind) : kind ∈ all := by
  cases kind <;> decide

/-- The name of a kind. -/
def name : TokenKind → String
  | illegal => "ILLEGAL" | eof => "EOF" | ident => "IDENT" | int => "INT"
  | assign => "ASSIGN" | plus => "PLUS" | minus => "MINUS" | bang => "BANG"
  | asterisk => "ASTERISK" | slash => "SLASH"
  | lt => "LT" | lte => "LTE" | gt => "GT" | gte => "GTE" | eq => "EQ" | neq => "NEQ"
  | land => "LAND" | lor => "LOR" | band => "BAND" | bor => "BOR"
  | comma => "COMMA" | semicolon => "SEMICOLON" | lparen => "LPAREN" | rparen => "RPAREN"
  | lbrace => "LBRACE" | rbrace => "RBRACE"
  | function => "FUNCTION" | letWord => "LET" | trueWord => "TRUE" | falseWord => "FALSE"
  | ifWord => "IF" | elseWord => "ELSE" | returnWord => "RETURN"

/-- The kind of a given name. -/
def ofName? (name : String) : Option TokenKind :=
  all.find? (·.name = name)

theorem ofName?_name (kind : TokenKind) : ofName? kind.name = some kind := by
  cases kind <;> decide +kernel

/-- The text that a token of an operator or delimiter kind always has. -/
def symbol? : TokenKind → Option String
  | assign => some "=" | plus => some "+" | minus => some "-" | bang => some "!"
  | asterisk => some "*" | slash => some "/"
  | lt => some "<" | lte => some "<=" | gt => some ">" | gte => some ">="
  | eq => some "==" | neq => some "!="
  | land => some "&&" | lor => some "||" | band => some "&" | bor => some "|"
  | comma => some "," | semicolon => some ";" | lparen => some "(" | rparen => some ")"
  | lbrace => some "\x7b" | rbrace => some "\x7d"
  | _ => none

/-- What a diagnostic calls a kind. -/
def shown (kind : TokenKind) : String :=
  kind.symbol?.getD kind.name

/-- The kind of a word: the reserved words have kinds of their own, and every other word is an
identifier. -/
def ofWord (word : String) : TokenKind :=
  if word = "fn" then function
  else if word = "let" then letWord
  else if word = "true" then trueWord
  else if word = "false" then falseWord
  else if word = "if" then ifWord
  else if word = "else" then elseWord
  else if word = "return" then returnWord
  else ident

end TokenKind

/-! ## Tokens -/

/-- A piece of a program text: its kind, its text, and where it starts. -/
structure Token where
  kind : TokenKind
  literal : String
  place : Position := {}
  deriving DecidableEq, Repr, Inhabited

namespace Token

/-- The token without its place, which is put at the start of the text instead. -/
def unplaced (token : Token) : Token :=
  { token with place := {} }

/-- Whether two tokens agree in kind and text, wherever they stand. -/
def same (first second : Token) : Bool :=
  first.kind = second.kind && first.literal = second.literal

/-- Tokens are the same exactly when they are equal apart from their places. -/
theorem same_iff {first second : Token} :
    first.same second = true ↔ first.unplaced = second.unplaced := by
  simp [same, unplaced]

/-- A token on one line, with its text quoted. -/
def dump (token : Token) : String :=
  s!"Token({token.kind.name}, {Text.quote token.literal}, " ++
    s!"line={token.place.line}, col={token.place.column})"

end Token

end MonkeyLang
