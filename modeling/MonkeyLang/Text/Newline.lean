/-!
# Line ends

A text file may end its lines with a line feed, a carriage return, or a carriage return and a line
feed.  `Text.unifyNewlines` reads each of the three as one line feed, so that every later stage sees
lines that end alike.
-/

set_option autoImplicit false

namespace MonkeyLang
namespace Text

/-- The text with each of its line ends written as one line feed. -/
def unifyNewlines : List Char → List Char
  | [] => []
  | '\r' :: '\n' :: rest => '\n' :: unifyNewlines rest
  | '\r' :: rest => '\n' :: unifyNewlines rest
  | c :: rest => c :: unifyNewlines rest

/-- No carriage return is left. -/
theorem return_not_mem_unifyNewlines (text : List Char) : '\r' ∉ unifyNewlines text := by
  fun_induction unifyNewlines text with
  | case1 => simp
  | case2 rest ih => simpa using ih
  | case3 rest _ ih => simpa using ih
  | case4 c rest _ hc ih =>
    rw [List.mem_cons, not_or]
    exact ⟨fun h => hc h.symm, ih⟩

end Text
end MonkeyLang
