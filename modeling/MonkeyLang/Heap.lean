import MonkeyLang.Value

/-!
# Scopes

Names are bound to values in *scopes*.  A scope may stand inside another one, which was there before
it, and a name is looked up from the inside outward: the nearest scope that binds it decides.  A
binding is always made in the one scope that it is made in, over an older binding of the name there
and in front of the bindings of the scopes outside.

Functions hold on to their scopes, and any number of functions may hold on to one, so scopes are
kept in a `Heap` and referred to by number.  The heap only grows.  It also counts the stamps that
values carry.

* `Heap.chain` is the list of scopes in which a name is looked up from a scope, the nearest first.
* `Heap.lookup` is the lookup, and `Heap.bind` makes a binding, which is all that it changes
  (`Heap.binding?_bind`).
-/

set_option autoImplicit false

namespace MonkeyLang

/-! ## One scope -/

/-- The bindings of a scope, the oldest name first, and the scope that it stands in. -/
structure Scope where
  bindings : List (String × Value) := []
  outer : Option ScopeId := none
  deriving Repr, Inhabited

namespace Scope

/-- The bindings with one name bound to a value.  A name that is bound already keeps its place. -/
def insert (name : String) (value : Value) : List (String × Value) → List (String × Value)
  | [] => [(name, value)]
  | binding :: rest =>
    if binding.1 = name then (name, value) :: rest else binding :: insert name value rest

/-- What a name is bound to in a list of bindings. -/
def find? (name : String) : List (String × Value) → Option Value
  | [] => none
  | binding :: rest => if binding.1 = name then some binding.2 else find? name rest

/-- A binding is found under its name and changes what is found under no other. -/
theorem find?_insert (name other : String) (value : Value) (bindings : List (String × Value)) :
    find? other (insert name value bindings) =
      if other = name then some value else find? other bindings := by
  induction bindings with
  | nil => by_cases h : name = other <;> simp [insert, find?, h, eq_comm]
  | cons binding rest ih =>
    by_cases h : binding.1 = name
    · by_cases h' : name = other <;> simp_all [insert, find?, eq_comm]
    · by_cases h' : binding.1 = other
      · have : other ≠ name := fun e => h (h'.trans e)
        simp [insert, find?, h', this]
      · simp [insert, find?, h, h', ih]

/-- The bindings of a scope in the order of their names. -/
def sorted (scope : Scope) : List (String × Value) :=
  scope.bindings.mergeSort fun first second => first.1 ≤ second.1

/-- The names of a scope in order, parted by commas. -/
def describe (scope : Scope) : String :=
  "Environment(" ++ ", ".intercalate (scope.sorted.map (·.1)) ++ ")"

end Scope

/-! ## All scopes -/

/-- The scopes, by number, and how many stamps are given out. -/
structure Heap where
  scopes : Array Scope := #[]
  stamps : Nat := 0
  deriving Repr, Inhabited

namespace Heap

/-- A heap with one scope, which stands in no other. -/
def initial : Heap :=
  { scopes := #[{}] }

/-- A scope, by its number. -/
def scope (heap : Heap) (id : ScopeId) : Scope :=
  heap.scopes[id]?.getD {}

/-- Adds a scope without bindings, inside another one or inside none. -/
def enclose (heap : Heap) (outer : Option ScopeId) : ScopeId × Heap :=
  (heap.scopes.size, { heap with scopes := heap.scopes.push { outer } })

/-- Binds a name in a scope. -/
def bind (heap : Heap) (id : ScopeId) (name : String) (value : Value) : Heap :=
  { heap with
    scopes := heap.scopes.modify id fun scope =>
      { scope with bindings := Scope.insert name value scope.bindings } }

/-- What a name is bound to in one scope. -/
def binding? (heap : Heap) (id : ScopeId) (name : String) : Option Value :=
  heap.scopes[id]?.bind fun scope => Scope.find? name scope.bindings

/-- A binding is there afterwards in the scope that it is made in, and all other bindings are as they
were. -/
theorem binding?_bind (heap : Heap) {id : ScopeId} (known : id < heap.scopes.size) (name : String)
    (value : Value) (place : ScopeId) (other : String) :
    (heap.bind id name value).binding? place other =
      if place = id ∧ other = name then some value else heap.binding? place other := by
  rw [binding?, bind, Array.getElem?_modify]
  by_cases same : id = place
  · subst same
    simp [binding?, known, Scope.find?_insert]
  · simp [binding?, same, Ne.symm same]

/-- The first scopes, as many as the number says, on the way from a scope outward. -/
def chainUpTo (heap : Heap) : Nat → ScopeId → List ScopeId
  | 0, _ => []
  | length + 1, id =>
    match heap.scopes[id]? with
    | none => []
    | some scope =>
      match scope.outer with
      | none => [id]
      | some outer => id :: heap.chainUpTo length outer

/-- The scopes in which names are looked up from a scope, the nearest first.  A scope stands in one
with a smaller number, so the way outward is no longer than the number says. -/
def chain (heap : Heap) (id : ScopeId) : List ScopeId :=
  heap.chainUpTo (id + 1) id

/-- What a name is bound to as seen from a scope. -/
def lookup (heap : Heap) (id : ScopeId) (name : String) : Option Value :=
  (heap.chain id).findSome? (heap.binding? · name)

/-- The scopes on the way outward, each with its names. -/
def describe (heap : Heap) (id : ScopeId) : String :=
  " -> ".intercalate ((heap.chain id).map fun id => (heap.scope id).describe)

end Heap

end MonkeyLang
