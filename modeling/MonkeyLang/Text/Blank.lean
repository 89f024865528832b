/-!
# Blank characters at the ends of a line

A typed line is read without the blanks around it before it is compared with a command word.  The
blanks are the ASCII ones, the four information separators U+001C to U+001F, the next-line control,
and every space and line separator of Unicode.  The zero-width characters are not among them.

* `Text.isBlank` is the class.
* `Text.trim` drops the blanks at both ends, and only there.
-/

set_option autoImplicit false

namespace MonkeyLang
namespace Text

/-- The blank code points, as closed ranges in rising order. -/
def blanks : List (Nat × Nat) :=
  [(0x09, 0x0d), (0x1c, 0x20), (0x85, 0x85), (0xa0, 0xa0), (0x1680, 0x1680), (0x2000, 0x200a),
   (0x2028, 0x2029), (0x202f, 0x202f), (0x205f, 0x205f), (0x3000, 0x3000)]

/-- Whether a character counts as blank. -/
def isBlank (c : Char) : Bool :=
  blanks.any fun range => range.1 ≤ c.toNat && c.toNat ≤ range.2

/-- A text without the blanks at its ends. -/
def trim (text : List Char) : List Char :=
  ((text.dropWhile isBlank).reverse.dropWhile isBlank).reverse

/-- Every character that core calls white space is blank. -/
theorem isBlank_of_isWhitespace {c : Char} (h : c.isWhitespace = true) : isBlank c = true := by
  simp only [Char.isWhitespace, Bool.or_eq_true, decide_eq_true_eq] at h
  rcases h with ((rfl | rfl) | rfl) | rfl <;> decide

end Text
end MonkeyLang
