import MonkeyLang.Token

/-!
# How tightly operators bind

Every infix operator has a *precedence*.  In `a + b * c` the operator `*` has the higher one and
takes its operands first; of two operators with one precedence the left one goes first.  The prefix
operators have a precedence too, below that of a call and above all infix operators: `-a * b` is
`(-a) * b` and `-f(x)` is `-(f(x))`.

* `Precedence` lists the levels, and `Precedence.level` numbers them from the loosest.
* `TokenKind.precedence` is the precedence of a kind of token that stands between two operands.  The
  kinds that never do have the lowest, which no operator has.
-/

set_option autoImplicit false

namespace MonkeyLang

/-- The levels of binding, from the loosest to the tightest. -/
inductive Precedence where
  | lowest | logicalOr | logicalAnd | equality | order | sum | product | sign | call
  deriving DecidableEq, Repr, Inhabited

namespace Precedence

/-- Every level, from the loosest to the tightest. -/
def all : List Precedence :=
  [lowest, logicalOr, logicalAnd, equality, order, sum, product, sign, call]

/-- The number of a level. -/
def level : Precedence → Nat
  | lowest => 1 | logicalOr => 2 | logicalAnd => 3 | equality => 4 | order => 5
  | sum => 6 | product => 7 | sign => 8 | call => 9

/-- The level of a given number. -/
def ofLevel? (level : Nat) : Option Precedence :=
  all.find? (·.level = level)

theorem ofLevel?_level (precedence : Precedence) :
    ofLevel? precedence.level = some precedence := by
  cases precedence <;> rfl

/-- The name of a level. -/
def name : Precedence → String
  | lowest => "LOWEST" | logicalOr => "LOGICAL_OR" | logicalAnd => "LOGICAL_AND"
  | equality => "EQUALS" | order => "LESSGREATER" | sum => "SUM" | product => "PRODUCT"
  | sign => "PREFIX" | call => "CALL"

/-- One level is below another when it binds less tightly. -/
instance : LT Precedence := ⟨fun first second => first.level < second.level⟩

instance (first second : Precedence) : Decidable (first < second) :=
  inferInstanceAs (Decidable (first.level < second.level))

end Precedence

/-- How tightly a kind of token binds the operand on its left. -/
def TokenKind.precedence : TokenKind → Precedence
  | .lor => .logicalOr
  | .land => .logicalAnd
  | .eq | .neq => .equality
  | .lt | .lte | .gt | .gte => .order
  | .plus | .minus => .sum
  | .asterisk | .slash => .product
  | .lparen => .call
  | _ => .lowest

end MonkeyLang
