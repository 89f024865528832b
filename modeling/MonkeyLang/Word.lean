/-!
# Signed words of 64 bits

The integers of the language are the signed words of 64 bits, from -2 ^ 63 to 2 ^ 63 - 1.  They are
kept as plain integers.  Every arithmetic result is first computed exactly and then *wrapped*: out
of the integers that differ from it by a multiple of 2 ^ 64, the one word is taken.

* `Word.wrap` wraps, and `Word.quotient` is division, which drops the fraction.
* `Word.InRange` says that an integer is a word.  `Word.inRange_wrap` and
  `Word.wrap_eq_of_inRange` say that wrapping gives words and changes none.
-/

set_option autoImplicit false

namespace MonkeyLang
namespace Word

/-- How many words there are: 2 ^ 64. -/
def count : Nat := 0x10000000000000000

/-- An integer that is a word: it is at least -2 ^ 63 and less than 2 ^ 63. -/
def InRange (n : Int) : Prop :=
  -0x8000000000000000 ≤ n ∧ n < 0x8000000000000000

instance (n : Int) : Decidable (InRange n) :=
  inferInstanceAs (Decidable (-0x8000000000000000 ≤ n ∧ n < 0x8000000000000000))

/-- The word that differs from an integer by a multiple of 2 ^ 64. -/
def wrap (n : Int) : Int :=
  n.bmod count

/-- The quotient of two words without its fraction.  It is a word already, except that the quotient
of -2 ^ 63 by -1 is one too large. -/
def quotient (a b : Int) : Int :=
  wrap (a.tdiv b)

theorem inRange_wrap (n : Int) : InRange (wrap n) := by
  have lower : -((count : Int) / 2) ≤ n.bmod count := Int.le_bmod (by decide)
  have upper : n.bmod count < ((count : Int) + 1) / 2 := Int.bmod_lt (by decide)
  rw [show (count : Int) = 0x10000000000000000 from rfl] at lower upper
  exact ⟨by rw [wrap]; omega, by rw [wrap]; omega⟩

theorem wrap_eq_of_inRange {n : Int} (h : InRange n) : wrap n = n := by
  obtain ⟨lower, upper⟩ := h
  exact Int.bmod_eq_of_le (by simp only [count]; omega) (by simp only [count]; omega)

end Word
end MonkeyLang
