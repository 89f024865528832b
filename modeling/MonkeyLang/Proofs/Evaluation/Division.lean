import MonkeyLang.Proofs.Evaluation.Arithmetic
import MonkeyLang.Proofs.Evaluation.Depth

/-!
# Division drops the fraction

The quotient of two words is the exact one without its fraction: what it leaves of the dividend is smaller
than the divisor and, if it is anything at all, has the sign of the dividend (`Word.Truncates`).  There is
one such quotient for every dividend and every divisor but zero, and it is a word again with a single
exception.  The least word divided by -1 is one too large, and wraps back to the least word.

It can be calculated from the magnitudes alone, with the sign put on afterwards (`Word.ofMagnitudes`).  So
it makes no difference whether a sign is changed in front of the dividend, the divisor or the quotient, as
long as no negation wraps.

* `evaluate_division` is the statement about evaluation.  Where the same operands occur in several
  expressions, they have to stand for their integers each time they are evaluated (`StandsFor`), as names
  that are bound to integers do, and all expressions of `MonkeyLang.Proofs.Evaluation.Arithmetic`.
-/

set_option autoImplicit false

namespace MonkeyLang

/-! ## Quotients -/

namespace Word

/-- The least word.  It is the only one whose negation is no word. -/
def least : Int := -0x8000000000000000

/-- The quotient of the magnitudes, negated if just one of the two integers is negative. -/
def ofMagnitudes (a b : Int) : Int :=
  if a < 0 ↔ b < 0 then (a.natAbs / b.natAbs : Nat) else -(a.natAbs / b.natAbs : Nat)

/-- The quotient leaves a remainder of the dividend that is smaller than the divisor, and that has the sign
of the dividend unless it is zero. -/
def Truncates (a b quotient : Int) : Prop :=
  ∃ remainder : Int, a = quotient * b + remainder ∧ remainder.natAbs < b.natAbs ∧
    (remainder = 0 ∨ remainder.sign = a.sign)

variable {a b : Int}

theorem tdiv_eq_ofMagnitudes (a b : Int) : a.tdiv b = ofMagnitudes a b := by
  have magnitude (n : Int) : (n.natAbs : Int) = if n < 0 then -n else n := by split <;> omega
  rw [ofMagnitudes, Int.ofNat_tdiv, magnitude, magnitude]
  by_cases ha : a < 0 <;> by_cases hb : b < 0 <;> simp [ha, hb, Int.neg_tdiv, Int.tdiv_neg]

/-- There is one quotient without a fraction. -/
theorem truncates_iff (hb : b ≠ 0) {quotient : Int} : Truncates a b quotient ↔ a.tdiv b = quotient := by
  constructor
  · rintro ⟨remainder, hsum, hsmall, hsign⟩
    have hsum' : remainder + b * quotient = a := by rw [hsum, Int.mul_comm, Int.add_comm]
    by_cases ha : 0 ≤ a
    · have hnonneg : 0 ≤ remainder := by
        rcases hsign with rfl | hsign
        · exact Int.le_refl 0
        · rwa [← Int.sign_nonneg_iff, hsign, Int.sign_nonneg_iff]
      exact ((Int.tdiv_tmod_unique ha hb).2 ⟨hsum', hnonneg, by omega⟩).1
    · have hnonpos : remainder ≤ 0 := by
        rcases hsign with rfl | hsign
        · exact Int.le_refl 0
        · rw [← Int.sign_nonpos_iff, hsign, Int.sign_nonpos_iff]
          omega
      exact ((Int.tdiv_tmod_unique' (by omega) hb).2 ⟨hsum', by omega, hnonpos⟩).1
  · rintro rfl
    refine ⟨a.tmod b, ?_, ?_, ?_⟩
    · rw [Int.mul_comm, Int.mul_tdiv_add_tmod]
    · rw [Int.natAbs_tmod]
      exact Nat.mod_lt _ (Int.natAbs_pos.2 hb)
    · by_cases hdvd : b ∣ a
      · exact .inl (Int.tmod_eq_zero_of_dvd hdvd)
      · exact .inr (by rw [Int.sign_tmod, if_neg hdvd])

/-- What the least word is divided into is not too large, unless its sign is merely changed. -/
theorem least_tdiv_lt (hb : b ≠ -1) : least.tdiv b < 0x8000000000000000 := by
  by_cases hnonneg : 0 ≤ b
  · have hquotient : 0 ≤ (-least).tdiv b := Int.tdiv_nonneg (by decide) hnonneg
    rw [Int.neg_tdiv] at hquotient
    omega
  · -- the divisor is at least two in magnitude, which halves the dividend
    have hhalf : least.natAbs / b.natAbs ≤ least.natAbs / 2 :=
      Nat.div_le_div_left (by omega) (by decide)
    have hmagnitude : (least.tdiv b).natAbs = least.natAbs / b.natAbs := Int.natAbs_tdiv least b
    have hbound : least.natAbs / 2 = 0x4000000000000000 := by decide
    omega

/-- The quotient of two words is a word, but for one that is too large. -/
theorem inRange_tdiv (ha : InRange a) (hfits : ¬(a = least ∧ b = -1)) : InRange (a.tdiv b) := by
  have hle : (a.tdiv b).natAbs ≤ a.natAbs := Int.natAbs_tdiv_le_natAbs a b
  rw [InRange] at ha ⊢
  by_cases hleast : a = least
  · subst hleast
    have hupper := least_tdiv_lt fun hb => hfits ⟨rfl, hb⟩
    have hmagnitude : least.natAbs = 0x8000000000000000 := by decide
    omega
  · rw [least] at hleast
    omega

theorem quotient_eq_tdiv (ha : InRange a) (hfits : ¬(a = least ∧ b = -1)) :
    quotient a b = a.tdiv b :=
  wrap_eq_of_inRange (inRange_tdiv ha hfits)

theorem quotient_eq_ofMagnitudes (a b : Int) : quotient a b = wrap (ofMagnitudes a b) := by
  rw [quotient, tdiv_eq_ofMagnitudes]

/-- The quotient that is too large wraps. -/
theorem quotient_least : quotient least (-1) = least := by decide

/-- A word has a negation, unless it is the least one. -/
theorem wrap_neg (ha : InRange a) (hne : a ≠ least) : wrap (-a) = -a := by
  refine wrap_eq_of_inRange ?_
  rw [InRange] at ha ⊢
  rw [least] at hne
  omega

theorem wrap_neg_tdiv (ha : InRange a) (hne : a ≠ least) (b : Int) :
    wrap (-(a.tdiv b)) = -(a.tdiv b) := by
  have hle : (a.tdiv b).natAbs ≤ a.natAbs := Int.natAbs_tdiv_le_natAbs a b
  refine wrap_eq_of_inRange ?_
  rw [InRange] at ha ⊢
  rw [least] at hne
  omega

theorem wrap_neg_quotient (ha : InRange a) (hne : a ≠ least) (b : Int) :
    wrap (-quotient a b) = -(a.tdiv b) := by
  rw [quotient_eq_tdiv ha fun h => hne h.1, wrap_neg_tdiv ha hne b]

theorem quotient_neg_left (ha : InRange a) (hne : a ≠ least) (b : Int) :
    quotient (-a) b = -(a.tdiv b) := by
  rw [quotient, Int.neg_tdiv, wrap_neg_tdiv ha hne b]

theorem quotient_neg_right (ha : InRange a) (hne : a ≠ least) (b : Int) :
    quotient a (-b) = -(a.tdiv b) := by
  rw [quotient, Int.tdiv_neg, wrap_neg_tdiv ha hne b]

end Word

/-! ## Evaluation -/

open Evaluation

section

variable {depth : Nat} {scope : ScopeId} {left right : Node} {heap middle after : Heap}
  {stamp stamp' : Nat} {a b : Int}

/-- What a division comes to is told from what its operands come to. -/
theorem evaluate_division_eq (token : Token)
    (hleft : evaluate depth left scope heap = .ok (.integer stamp a) middle)
    (hright : evaluate depth right scope middle = .ok (.integer stamp' b) after) :
    evaluate (depth + 1) (.binary token left "/" right) scope heap =
      if b = 0 then .ok (.error .divisionByZero) after
      else .ok (.integer after.stamps (Word.quotient a b)) { after with stamps := after.stamps + 1 } := by
  rw [evaluate, evaluateWith, andThen_plain hleft rfl, andThen_plain hright rfl]
  rw [Outcome.binary, if_neg (by simp [Value.kind])]
  by_cases hb : b = 0
  · rw [if_pos hb]
    simp only [Outcome.ofIntegers, if_pos hb]
    rfl
  · rw [if_neg hb]
    simp only [Outcome.ofIntegers, if_neg hb]
    rfl

/-- What a sign in front of an integer comes to. -/
theorem evaluate_negation_eq (token : Token)
    (hoperand : evaluate depth left scope heap = .ok (.integer stamp a) after) :
    evaluate (depth + 1) (.unary token "-" left) scope heap =
      .ok (.integer after.stamps (Word.wrap (-a))) { after with stamps := after.stamps + 1 } := by
  rw [evaluate, evaluateWith, andThen_plain hoperand rfl]
  rfl

end

/-- Wherever the scopes are the given ones, evaluation to the depth brings the node to the integer and
leaves the scopes alone. -/
def StandsFor (scopes : Array Scope) (scope : ScopeId) (depth : Nat) (node : Node) (value : Int) : Prop :=
  ∀ before : Heap, before.scopes = scopes → ∃ stamp after,
    evaluate depth node scope before = .ok (.integer stamp value) after ∧ after.scopes = scopes

theorem AmountsTo.standsFor {heap : Heap} {scope : ScopeId} {node : Node} {exact : Int}
    (h : AmountsTo heap scope node exact) {depth : Nat} (hdepth : node.arithmeticDepth ≤ depth) :
    StandsFor heap.scopes scope depth node (Word.wrap exact) :=
  fun _ hscopes => h.evaluate_ok hdepth hscopes

namespace StandsFor

variable {scopes : Array Scope} {scope : ScopeId} {depth : Nat} {left right : Node} {a b : Int}

theorem deeper (h : StandsFor scopes scope depth left a) : StandsFor scopes scope (depth + 1) left a := by
  intro before hscopes
  obtain ⟨stamp, after, hrun, hafter⟩ := h before hscopes
  refine ⟨stamp, after, ?_, hafter⟩
  rw [(evaluate_of_le (Nat.le_succ depth) left scope before).1 (by simp [hrun]), hrun]

theorem negation (h : StandsFor scopes scope depth left a) (token : Token) :
    StandsFor scopes scope (depth + 1) (.unary token "-" left) (Word.wrap (-a)) := by
  intro before hscopes
  obtain ⟨stamp, after, hrun, hafter⟩ := h before hscopes
  exact ⟨_, _, evaluate_negation_eq token hrun, hafter⟩

theorem division (hleft : StandsFor scopes scope depth left a)
    (hright : StandsFor scopes scope depth right b) (hb : b ≠ 0) (token : Token) :
    StandsFor scopes scope (depth + 1) (.binary token left "/" right) (Word.quotient a b) := by
  intro before hscopes
  obtain ⟨stamp, middle, hleft, hmiddle⟩ := hleft before hscopes
  obtain ⟨stamp', after, hright, hafter⟩ := hright middle hmiddle
  exact ⟨_, _, (evaluate_division_eq token hleft hright).trans (if_neg hb), hafter⟩

end StandsFor

/-- **Division drops the fraction, and wraps once.**  Operands that come to two words come, with the
operator of division between them, to a failure exactly if the divisor is zero, and else to a word.  It is
the only quotient without a fraction, however it is calculated, except that the least word divided by -1 is
the least word.

And if neither of two words is the least one and the divisor is not zero, then it makes no difference whether
the dividend, the divisor or the quotient is negated. -/
theorem evaluate_division {a b : Int} (ha : Word.InRange a) (hb : Word.InRange b) :
    (∀ (depth : Nat) (scope : ScopeId) (token : Token) (left right : Node) (heap middle after : Heap)
        (stamp stamp' : Nat), evaluate depth left scope heap = .ok (.integer stamp a) middle →
      evaluate depth right scope middle = .ok (.integer stamp' b) after →
      let outcome := evaluate (depth + 1) (.binary token left "/" right) scope heap
      (outcome = .ok (.error .divisionByZero) after ↔ b = 0) ∧
      (b ≠ 0 → ∃ quotient, outcome =
          .ok (.integer after.stamps quotient) { after with stamps := after.stamps + 1 } ∧
        Word.InRange quotient ∧ quotient = Word.wrap (Word.ofMagnitudes a b) ∧
        (¬(a = Word.least ∧ b = -1) → ∀ other, Word.Truncates a b other ↔ other = quotient) ∧
        (a = Word.least → b = -1 → quotient = Word.least))) ∧
    (b ≠ 0 → a ≠ Word.least → b ≠ Word.least →
      ∀ (scopes : Array Scope) (scope : ScopeId) (depth : Nat) (sign operator : Token)
        (left right : Node), StandsFor scopes scope depth left a → StandsFor scopes scope depth right b →
      ∃ quotient,
        StandsFor scopes scope (depth + 2) (.binary operator (.unary sign "-" left) "/" right) quotient ∧
        StandsFor scopes scope (depth + 2) (.binary operator left "/" (.unary sign "-" right)) quotient ∧
        StandsFor scopes scope (depth + 2) (.unary sign "-" (.binary operator left "/" right)) quotient) := by
  constructor
  · intro depth scope token left right heap middle after stamp stamp' hleft hright outcome
    have houtcome : outcome = _ := evaluate_division_eq token hleft hright
    by_cases hzero : b = 0
    · rw [if_pos hzero] at houtcome
      exact ⟨⟨fun _ => hzero, fun _ => houtcome⟩, fun hne => absurd hzero hne⟩
    · rw [if_neg hzero] at houtcome
      refine ⟨⟨fun hfails => ?_, fun h => absurd h hzero⟩, fun _ => ⟨_, houtcome, Word.inRange_wrap _,
        Word.quotient_eq_ofMagnitudes a b, fun hfits other => ?_, ?_⟩⟩
      · cases houtcome.symm.trans hfails
      · rw [Word.truncates_iff hzero, Word.quotient_eq_tdiv ha hfits]
        exact eq_comm
      · rintro rfl rfl
        exact Word.quotient_least
  · intro hzero haleast hbleast scopes scope depth sign operator left right hleft hright
    have hdividend := hleft.negation sign
    have hdivisor := hright.negation sign
    rw [Word.wrap_neg ha haleast] at hdividend
    rw [Word.wrap_neg hb hbleast] at hdivisor
    have hfirst := hdividend.division hright.deeper hzero operator
    have hsecond := hleft.deeper.division hdivisor (Int.neg_ne_zero.2 hzero) operator
    have hthird := (hleft.division hright hzero operator).negation sign
    rw [Word.quotient_neg_left ha haleast] at hfirst
    rw [Word.quotient_neg_right ha haleast] at hsecond
    rw [Word.wrap_neg_quotient ha haleast] at hthird
    exact ⟨_, hfirst, hsecond, hthird⟩

/-- A negative dividend: the quotient of -7 and 2 is -3, and -1 is left. -/
theorem evaluate_division_negative :
    let heap : Heap := { scopes := #[{ bindings := [("x", .integer 0 (-7)), ("y", .integer 1 2)] }] }
    let x := Node.reference ⟨⟨.ident, "x", {}⟩, "x"⟩
    let y := Node.reference ⟨⟨.ident, "y", {}⟩, "y"⟩
    Word.InRange (-7) ∧ Word.InRange 2 ∧
    (∃ after, evaluate 2 (.binary ⟨.slash, "/", {}⟩ x "/" y) 0 heap = .ok (.integer 0 (-3)) after) ∧
    ∃ quotient,
      StandsFor heap.scopes 0 3
        (.binary ⟨.slash, "/", {}⟩ (.unary ⟨.minus, "-", {}⟩ "-" x) "/" y) quotient ∧
      StandsFor heap.scopes 0 3
        (.unary ⟨.minus, "-", {}⟩ "-" (.binary ⟨.slash, "/", {}⟩ x "/" y)) quotient := by
  intro heap x y
  have hx : AmountsTo heap 0 x (-7) := .reference rfl (by decide)
  have hy : AmountsTo heap 0 y 2 := .reference rfl (by decide)
  obtain ⟨hdivision, hsigns⟩ := evaluate_division (a := -7) (b := 2) (by decide) (by decide)
  obtain ⟨quotient, hrun, -, -, honly, -⟩ :=
    (hdivision 1 0 ⟨.slash, "/", {}⟩ x y heap heap heap 0 1 rfl rfl).2 (by decide)
  have htruncates : Word.Truncates (-7) 2 (-3) := ⟨-1, by decide, by decide, .inr (by decide)⟩
  obtain rfl := (honly (by decide) (-3)).1 htruncates
  obtain ⟨quotient, hfirst, -, hthird⟩ :=
    hsigns (by decide) (by decide) (by decide) heap.scopes 0 1 ⟨.minus, "-", {}⟩ ⟨.slash, "/", {}⟩ x y
      (hx.standsFor (Nat.le_refl 1)) (hy.standsFor (Nat.le_refl 1))
  exact ⟨by decide, by decide, ⟨_, hrun⟩, quotient, hfirst, hthird⟩

end MonkeyLang
