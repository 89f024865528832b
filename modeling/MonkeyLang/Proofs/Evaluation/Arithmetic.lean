import MonkeyLang.Proofs.Evaluation.Leaving

/-!
# Arithmetic is exact up to wrapping

Every operator wraps its result to a word, so what an expression evaluates to has been wrapped many times on
the way.  It comes to the same as calculating exactly and wrapping once, at the end: adding, subtracting,
multiplying and negating go together with taking remainders.

* `Word.wrap_eq_iff` says which word wrapping gives: the only one that differs by a multiple of 2 ^ 64.
* `AmountsTo` is the exact calculation: what an expression of integers amounts to if nothing wraps.
* `evaluate_amount` compares it with evaluation.  An expression may be nested more deeply than evaluation
  may go, and then evaluation is given up; `Node.arithmeticDepth` is how deep it has to go.
-/

set_option autoImplicit false

namespace MonkeyLang

/-! ## Wrapping -/

namespace Word

/-- Wrapping is cutting off all but the lowest 64 bits and reading the highest of these as a sign. -/
theorem wrap_eq_masked (n : Int) :
    wrap n = if n % count < 0x8000000000000000 then n % count else n % count - count :=
  Int.bmod_def n count

/-- The result of wrapping is the only word that differs by a multiple of 2 ^ 64. -/
theorem wrap_eq_iff {n word : Int} : InRange word ∧ (count : Int) ∣ word - n ↔ word = wrap n := by
  constructor
  · rintro ⟨⟨hlower, hupper⟩, hdvd⟩
    have hhalf : -((count : Int) / 2) ≤ word ∧ word < ((count : Int) + 1) / 2 := ⟨hlower, hupper⟩
    exact ((Int.bmod_eq_iff (by decide)).2 ⟨hhalf.1, hhalf.2, hdvd⟩).symm
  · rintro rfl
    exact ⟨inRange_wrap n, Int.dvd_bmod_sub_self⟩

theorem wrap_neg_wrap (a : Int) : wrap (-wrap a) = wrap (-a) :=
  Int.bmod_neg_bmod

end Word

/-! ## Exact calculation -/

/-- What an operator between two integers gives exactly, if it adds, subtracts or multiplies. -/
def Outcome.amount? (operator : String) (left right : Int) : Option Int :=
  match operator with
  | "+" => some (left + right)
  | "-" => some (left - right)
  | "*" => some (left * right)
  | _ => none

/-- An expression of integer literals and of names that are bound to integers, with the operators that add,
subtract, multiply and negate, amounts to an integer, which need not be a word. -/
inductive AmountsTo (heap : Heap) (scope : ScopeId) : Node → Int → Prop
  | literal {token : Token} {value : Int} (hrange : Word.InRange value) :
      AmountsTo heap scope (.integer token value) value
  | reference {identifier : Identifier} {stamp : Nat} {value : Int}
      (hbound : heap.lookup scope identifier.name = some (.integer stamp value))
      (hrange : Word.InRange value) : AmountsTo heap scope (.reference identifier) value
  | negation {token : Token} {operand : Node} {a : Int} (hoperand : AmountsTo heap scope operand a) :
      AmountsTo heap scope (.unary token "-" operand) (-a)
  | operation {token : Token} {operator : String} {left right : Node} {a b c : Int}
      (hleft : AmountsTo heap scope left a) (hright : AmountsTo heap scope right b)
      (hexact : Outcome.amount? operator a b = some c) :
      AmountsTo heap scope (.binary token left operator right) c

/-- How deeply the operators of an expression are nested. -/
def Node.arithmeticDepth : Node → Nat
  | unary _ _ operand => operand.arithmeticDepth + 1
  | binary _ left _ right => max left.arithmeticDepth right.arithmeticDepth + 1
  | _ => 1

/-- Operators on wrapped operands give the wrapped result. -/
theorem Outcome.ofIntegers_wrap {operator : String} {a b c : Int} (h : amount? operator a b = some c) :
    ofIntegers operator (Word.wrap a) (Word.wrap b) = integer (Word.wrap c) := by
  unfold amount? at h
  split at h
  · obtain rfl := Option.some.inj h
    exact congrArg integer (Int.add_bmod a b Word.count).symm
  · obtain rfl := Option.some.inj h
    exact congrArg integer (Int.sub_bmod a b Word.count).symm
  · obtain rfl := Option.some.inj h
    exact congrArg integer (Int.mul_bmod a b Word.count).symm
  · cases h

/-! ## Evaluation -/

namespace Heap

theorem chainUpTo_of_scopes {first second : Heap} (h : first.scopes = second.scopes) :
    ∀ (length : Nat) (id : ScopeId), first.chainUpTo length id = second.chainUpTo length id
  | 0, _ => rfl
  | length + 1, id => by
    simp only [chainUpTo, h, chainUpTo_of_scopes h length]

/-- Names are looked up in the scopes and nowhere else. -/
theorem lookup_of_scopes {first second : Heap} (h : first.scopes = second.scopes) (id : ScopeId)
    (name : String) : first.lookup id name = second.lookup id name := by
  have hbinding : (first.binding? · name) = (second.binding? · name) := by
    funext place
    rw [binding?, binding?, h]
  rw [lookup, lookup, chain, chain, chainUpTo_of_scopes h, hbinding]

end Heap

theorem Evaluation.bind_error {α β : Type} {evaluation : Evaluation α} {next : α → Evaluation β}
    {cause : Halt} {heap after : Heap} (h : evaluation heap = .error cause after) :
    (evaluation >>= next) heap = .error cause after := by
  simp only [Bind.bind, EStateM.bind, h]

namespace AmountsTo

open Evaluation

variable {heap : Heap} {scope : ScopeId} {node : Node} {exact : Int}

/-- Evaluation that may go deep enough gives the wrapped amount. -/
theorem evaluate_ok (h : AmountsTo heap scope node exact) : ∀ {depth : Nat} {before : Heap},
    node.arithmeticDepth ≤ depth → before.scopes = heap.scopes →
    ∃ stamp after, evaluate depth node scope before = .ok (.integer stamp (Word.wrap exact)) after ∧
      after.scopes = heap.scopes := by
  induction h with
  | literal hrange =>
    rintro (_ | depth) before hdepth hscopes
    · exact absurd hdepth (Nat.not_succ_le_zero _)
    · rw [Word.wrap_eq_of_inRange hrange]
      exact ⟨_, _, rfl, hscopes⟩
  | @reference identifier stamp value hbound hrange =>
    rintro (_ | depth) before hdepth hscopes
    · exact absurd hdepth (Nat.not_succ_le_zero _)
    · rw [Word.wrap_eq_of_inRange hrange]
      rw [← Heap.lookup_of_scopes hscopes] at hbound
      refine ⟨stamp, before, ?_, hscopes⟩
      have hvalue : (before.lookup scope identifier.name).getD (.error (.unbound identifier.name)) =
          .integer stamp value := by rw [hbound]; rfl
      exact congrArg (EStateM.Result.ok · before) hvalue
  | @negation token operand a _ ih =>
    rintro (_ | depth) before hdepth hscopes
    · exact absurd hdepth (Nat.not_succ_le_zero _)
    · obtain ⟨stamp, after, hrun, hafter⟩ := ih (Nat.le_of_succ_le_succ hdepth) hscopes
      rw [← Word.wrap_neg_wrap, evaluate, evaluateWith, andThen_plain hrun rfl]
      exact ⟨_, _, rfl, hafter⟩
  | @operation token operator left right a b c _ _ hexact ihleft ihright =>
    rintro (_ | depth) before hdepth hscopes
    · exact absurd hdepth (Nat.not_succ_le_zero _)
    · have hdepth := Nat.max_le.1 (Nat.le_of_succ_le_succ hdepth)
      obtain ⟨stamp, middle, hleft, hmiddle⟩ := ihleft hdepth.1 hscopes
      obtain ⟨stamp', after, hright, hafter⟩ := ihright hdepth.2 hmiddle
      rw [evaluate, evaluateWith, andThen_plain hleft rfl, andThen_plain hright rfl]
      rw [Outcome.binary, if_neg (by simp [Value.kind])]
      simp only [Outcome.ofIntegers_wrap hexact]
      exact ⟨_, _, rfl, hafter⟩

/-- Evaluation that may not go deep enough is given up. -/
theorem evaluate_error (h : AmountsTo heap scope node exact) : ∀ {depth : Nat} {before : Heap},
    depth < node.arithmeticDepth → before.scopes = heap.scopes →
    ∃ after, evaluate depth node scope before = .error .tooDeep after ∧ after.scopes = heap.scopes := by
  induction h with
  | literal _ | reference _ _ =>
    intro depth before hdepth hscopes
    obtain rfl : depth = 0 := Nat.lt_one_iff.1 hdepth
    exact ⟨before, rfl, hscopes⟩
  | negation _ ih =>
    rintro (_ | depth) before hdepth hscopes
    · exact ⟨before, rfl, hscopes⟩
    · obtain ⟨after, hrun, hafter⟩ := ih (Nat.lt_of_succ_lt_succ hdepth) hscopes
      exact ⟨after, bind_error hrun, hafter⟩
  | @operation token operator left right a b c hleft _ _ ihleft ihright =>
    rintro (_ | depth) before hdepth hscopes
    · exact ⟨before, rfl, hscopes⟩
    · by_cases hshallow : left.arithmeticDepth ≤ depth
      · -- the left operand is done by then, so it is the right one that is too deep
        have hdeep : depth < right.arithmeticDepth := by
          simp only [Node.arithmeticDepth] at hdepth
          omega
        obtain ⟨stamp, middle, hrun, hmiddle⟩ := hleft.evaluate_ok hshallow hscopes
        obtain ⟨after, hright, hafter⟩ := ihright hdeep hmiddle
        rw [evaluate, evaluateWith, andThen_plain hrun rfl]
        exact ⟨after, bind_error hright, hafter⟩
      · obtain ⟨after, hrun, hafter⟩ := ihleft (Nat.lt_of_not_le hshallow) hscopes
        exact ⟨after, bind_error hrun, hafter⟩

end AmountsTo

/-- **Wrapped arithmetic is exact arithmetic modulo 2 ^ 64.**  An expression that amounts to some integer
evaluates, whenever evaluation may go as deep as its operators are nested, to the word that wrapping this
integer once gives, and this is the only word that differs from it by a multiple of 2 ^ 64.  Otherwise it is
given up.  No scope changes in either case. -/
theorem evaluate_amount {heap : Heap} {scope : ScopeId} {node : Node} {exact : Int}
    (h : AmountsTo heap scope node exact) :
    (∀ depth, node.arithmeticDepth ≤ depth → ∃ stamp after,
      evaluate depth node scope heap = .ok (.integer stamp (Word.wrap exact)) after ∧
        after.scopes = heap.scopes) ∧
    (∀ depth, depth < node.arithmeticDepth → ∃ after,
      evaluate depth node scope heap = .error .tooDeep after ∧ after.scopes = heap.scopes) ∧
    ∀ word, Word.InRange word ∧ (Word.count : Int) ∣ word - exact ↔ word = Word.wrap exact :=
  ⟨fun _ hdepth => h.evaluate_ok hdepth rfl, fun _ hdepth => h.evaluate_error hdepth rfl,
    fun _ => Word.wrap_eq_iff⟩

/-- The least word, bound to a name: negating it wraps, and subtracting one from that wraps back. -/
theorem evaluate_amount_least :
    AmountsTo { scopes := #[{ bindings := [("x", .integer 0 (-0x8000000000000000))] }] } 0
      (.binary ⟨.minus, "-", {}⟩ (.unary ⟨.minus, "-", {}⟩ "-" (.reference ⟨⟨.ident, "x", {}⟩, "x"⟩)) "-"
        (.integer ⟨.int, "1", {}⟩ 1)) 0x7fffffffffffffff ∧
    ∃ stamp after, evaluate 3
      (.binary ⟨.minus, "-", {}⟩ (.unary ⟨.minus, "-", {}⟩ "-" (.reference ⟨⟨.ident, "x", {}⟩, "x"⟩)) "-"
        (.integer ⟨.int, "1", {}⟩ 1)) 0
      { scopes := #[{ bindings := [("x", .integer 0 (-0x8000000000000000))] }] } =
        .ok (.integer stamp 0x7fffffffffffffff) after := by
  have hamount : AmountsTo { scopes := #[{ bindings := [("x", .integer 0 (-0x8000000000000000))] }] } 0
      (.binary ⟨.minus, "-", {}⟩ (.unary ⟨.minus, "-", {}⟩ "-" (.reference ⟨⟨.ident, "x", {}⟩, "x"⟩)) "-"
        (.integer ⟨.int, "1", {}⟩ 1)) 0x7fffffffffffffff :=
    .operation (.negation (.reference rfl (by decide))) (.literal (by decide)) rfl
  obtain ⟨stamp, after, hrun, -⟩ := (evaluate_amount hamount).1 3 (by decide)
  exact ⟨hamount, stamp, after, hrun⟩

end MonkeyLang
