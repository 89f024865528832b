import MonkeyLang.Text.Printable

/-!
# Quoted text

Dumps of tokens and trees, and the messages about files, show a text between quotes, on one line
and without a character that could be mistaken for another.

* `Text.quoteMark` picks the quote: the apostrophe, unless the text holds apostrophes and no double
  quote, so that a text is escaped for its quotes only when it holds both kinds.
* `Text.escape` writes one character.  A backslash and the chosen quote take a backslash in front;
  tab, line feed and carriage return have letters; every other character without a visible form is
  given by its code point in lower-case hexadecimal, with two, four or eight digits.
* `Text.quote` puts the two together.
-/

set_option autoImplicit false

namespace MonkeyLang
namespace Text

/-- The quote that a text is shown in. -/
def quoteMark (text : List Char) : Char :=
  if text.contains '\'' && !text.contains '"' then '"' else '\''

/-- A number in lower-case hexadecimal with exactly `width` digits, the leading ones zero where the
number is small. -/
def hex : Nat → Nat → List Char
  | 0, _ => []
  | width + 1, n => hex width (n / 16) ++ [Nat.digitChar (n % 16)]

/-- One character of a text that is shown between two `mark`s. -/
def escape (mark c : Char) : List Char :=
  if c = '\\' || c = mark then ['\\', c]
  else if c = '\t' then ['\\', 't']
  else if c = '\n' then ['\\', 'n']
  else if c = '\r' then ['\\', 'r']
  else if isPrintable c then [c]
  else if c.toNat < 0x100 then '\\' :: 'x' :: hex 2 c.toNat
  else if c.toNat < 0x10000 then '\\' :: 'u' :: hex 4 c.toNat
  else '\\' :: 'U' :: hex 8 c.toNat

/-- A text between quotes. -/
def quote (text : String) : String :=
  let mark := quoteMark text.toList
  String.ofList (mark :: text.toList.flatMap (escape mark) ++ [mark])

/-- A text of plain letters is shown as it is, between apostrophes. -/
example : quote "abc" = "'abc'" := by decide +kernel

/-- A text with an apostrophe alone goes between double quotes. -/
example : quote "it's" = "\"it's\"" := by decide +kernel

/-- A text with both quotes goes between apostrophes, and its apostrophes are escaped. -/
example : quote "'\"" = "'\\'\"'" := by decide +kernel

end Text
end MonkeyLang
