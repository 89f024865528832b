import MonkeyLang.Value
import MonkeyLang.Word

/-!
# Operators

What operators do with their operands.  The operands are data, both of them evaluated already: even
`&&` and `||` look at both.

* The arithmetic of integers wraps to words, and division by zero fails.
* Integers are compared by value, truth values too, and any other two values of one kind are equal
  if they are identical.
* Operands of different kinds never go together, whatever the operator.  Of two operands of one
  kind it depends on the operator, and operators that the language does not have go with none.

An `Outcome` is what an operator gives.  It is less than a value, since an integer gets its stamp
only when it becomes one.
-/

set_option autoImplicit false

namespace MonkeyLang

/-- What an operator gives. -/
inductive Outcome where
  | integer (value : Int)
  | boolean (value : Bool)
  | error (cause : Failure)
  deriving DecidableEq, Repr, Inhabited

namespace Outcome

/-- An operator in front of its operand. -/
def unary (operator : String) (operand : Value) : Outcome :=
  match operator, operand with
  | "!", _ => boolean (!operand.isTruthy)
  | "-", .integer _ value => integer (Word.wrap (-value))
  | _, _ => error (.noUnary operator operand.kind)

/-- An operator between two integers. -/
def ofIntegers (operator : String) (left right : Int) : Outcome :=
  match operator with
  | "+" => integer (Word.wrap (left + right))
  | "-" => integer (Word.wrap (left - right))
  | "*" => integer (Word.wrap (left * right))
  | "/" => if right = 0 then error .divisionByZero else integer (Word.quotient left right)
  | "<" => boolean (left < right)
  | "<=" => boolean (left ≤ right)
  | ">" => boolean (left > right)
  | ">=" => boolean (left ≥ right)
  | "==" => boolean (left = right)
  | "!=" => boolean (left ≠ right)
  | _ => error (.noBinary .integer operator .integer)

/-- An operator between two truth values. -/
def ofBooleans (operator : String) (left right : Bool) : Outcome :=
  match operator with
  | "==" => boolean (left = right)
  | "!=" => boolean (left ≠ right)
  | "&&" => boolean (left && right)
  | "||" => boolean (left || right)
  | _ => error (.noBinary .boolean operator .boolean)

/-- An operator between two values of one kind that are neither integers nor truth values. -/
def ofOthers (operator : String) (left right : Value) : Outcome :=
  match operator with
  | "==" => boolean (left.identical right)
  | "!=" => boolean (!left.identical right)
  | _ => error (.noBinary left.kind operator right.kind)

/-- An operator between its operands. -/
def binary (operator : String) (left right : Value) : Outcome :=
  if left.kind ≠ right.kind then error (.mismatch left.kind operator right.kind)
  else match left, right with
    | .integer _ left, .integer _ right => ofIntegers operator left right
    | .boolean left, .boolean right => ofBooleans operator left right
    | _, _ => ofOthers operator left right

end Outcome

end MonkeyLang
