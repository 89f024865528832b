import MonkeyLang.Proofs.Scanning.Concatenation

/-!
# The places of tokens are in order

The walk over a text passes from the place of a character to that of the next, which is further on.  So the
tokens of a text stand one behind the other, no two at one place (`Token.pairwise_scan`), and in front of
the end of the text (`TokenStream.pairwise_ofSource`).
-/

set_option autoImplicit false

namespace MonkeyLang

namespace Position

/-- The order in which a text is read: line by line, and each line from left to right. -/
instance : LT Position :=
  ⟨fun first second => first.line < second.line ∨
    first.line = second.line ∧ first.column < second.column⟩

instance (first second : Position) : Decidable (first < second) :=
  inferInstanceAs (Decidable (first.line < second.line ∨
    first.line = second.line ∧ first.column < second.column))

theorem lt_def {first second : Position} : first < second ↔ first.line < second.line ∨
    first.line = second.line ∧ first.column < second.column := Iff.rfl

/-- One place is another or in front of it. -/
instance : LE Position :=
  ⟨fun first second => first.line < second.line ∨
    first.line = second.line ∧ first.column ≤ second.column⟩

instance (first second : Position) : Decidable (first ≤ second) :=
  inferInstanceAs (Decidable (first.line < second.line ∨
    first.line = second.line ∧ first.column ≤ second.column))

theorem le_def {first second : Position} : first ≤ second ↔ first.line < second.line ∨
    first.line = second.line ∧ first.column ≤ second.column := Iff.rfl

theorem le_refl (place : Position) : place ≤ place :=
  .inr ⟨rfl, Int.le_refl _⟩

theorem le_trans {first second third : Position} (h : first ≤ second) (h' : second ≤ third) :
    first ≤ third := by
  rw [le_def] at h h' ⊢
  omega

theorem le_of_lt {first second : Position} (h : first < second) : first ≤ second := by
  rw [lt_def] at h
  rw [le_def]
  omega

theorem lt_trans {first second third : Position} (h : first < second) (h' : second < third) :
    first < third := by
  rw [lt_def] at h h' ⊢
  omega

/-- The walk goes on to a later place. -/
theorem lt_after (place : Position) (c : Char) : place < place.after c := by
  rw [lt_def, after]
  split
  · exact .inl (Int.lt_succ place.line)
  · exact .inr ⟨rfl, Int.lt_succ place.column⟩

/-- What is not in front of the next place is behind this one. -/
theorem lt_of_after {place other : Position} {c : Char}
    (h : other = place.after c ∨ place.after c < other) : place < other := by
  rcases h with rfl | hlt
  · exact place.lt_after c
  · exact lt_trans (place.lt_after c) hlt

theorem le_afterAll : ∀ (text : List Char) (place : Position), place ≤ place.afterAll text
  | [], place => place.le_refl
  | c :: rest, place => le_trans (le_of_lt (place.lt_after c)) (le_afterAll rest (place.after c))

end Position

namespace Token

/-- No token stands in front of where the walk starts. -/
theorem place_of_mem_scanFrom {token : Token} : ∀ (text : List Char) {inside : Nat} {place : Position},
    token ∈ scanFrom inside place text → token.place = place ∨ place < token.place
  | [], inside, place, hmem => by cases inside <;> cases hmem
  | c :: rest, inside + 1, place, hmem => .inr (Position.lt_of_after (place_of_mem_scanFrom rest hmem))
  | c :: rest, 0, place, hmem => by
    rw [scanFrom_cons] at hmem
    split at hmem
    · exact .inr (Position.lt_of_after (place_of_mem_scanFrom rest hmem))
    · rcases List.mem_cons.1 hmem with rfl | hmem
      · exact .inl rfl
      · exact .inr (Position.lt_of_after (place_of_mem_scanFrom rest hmem))

theorem pairwise_scanFrom : ∀ (text : List Char) (inside : Nat) (place : Position),
    (scanFrom inside place text).Pairwise fun first second => first.place < second.place
  | [], inside, place => by cases inside <;> exact .nil
  | c :: rest, inside + 1, place => pairwise_scanFrom rest inside (place.after c)
  | c :: rest, 0, place => by
    rw [scanFrom_cons]
    split
    · exact pairwise_scanFrom rest 0 _
    · exact .cons (fun token hmem => Position.lt_of_after (place_of_mem_scanFrom rest hmem))
        (pairwise_scanFrom rest _ _)

/-- The tokens of a text stand one behind the other. -/
theorem pairwise_scan (text : List Char) :
    (scan text).Pairwise fun first second => first.place < second.place :=
  pairwise_scanFrom text 0 {}

/-- No token stands behind where the walk ends. -/
theorem place_le_of_mem_scanFrom {token : Token} : ∀ (text : List Char) {inside : Nat} {place : Position},
    token ∈ scanFrom inside place text → token.place ≤ place.afterAll text
  | [], inside, place, hmem => by cases inside <;> cases hmem
  | c :: rest, inside + 1, place, hmem => place_le_of_mem_scanFrom rest hmem
  | c :: rest, 0, place, hmem => by
    rw [scanFrom_cons] at hmem
    split at hmem
    · exact place_le_of_mem_scanFrom rest hmem
    · rcases List.mem_cons.1 hmem with rfl | hmem
      · exact Position.le_afterAll (c :: rest) place
      · exact place_le_of_mem_scanFrom rest hmem

end Token

/-- In a source text no token stands behind a later one, and none behind the end. -/
theorem TokenStream.pairwise_ofSource (source : String) :
    (ofSource source).toList.Pairwise fun first second => first.place ≤ second.place := by
  rw [toList, List.pairwise_append]
  refine ⟨(Token.pairwise_scan source.toList).imp Position.le_of_lt, List.pairwise_singleton _ _, ?_⟩
  intro token htoken last hlast
  obtain rfl := List.mem_singleton.1 hlast
  exact Token.place_le_of_mem_scanFrom source.toList htoken

end MonkeyLang
