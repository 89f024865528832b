import MonkeyLang.Evaluation

/-!
# No signal is ever bound

Whatever evaluation does to a heap, all that is bound in its scopes has some property, as long as only
values with this property are bound (`Heap.Holds`).

Signals are no data.  A heap is *clean* if no name is bound to a signal in any of its scopes.
-/

set_option autoImplicit false

namespace MonkeyLang

/-- A value that is no signal. -/
def Value.Plain (value : Value) : Prop :=
  value.isSignal = false

theorem Value.Plain.unwrap_eq {value : Value} (h : value.Plain) : value.unwrap = value := by
  cases value <;> first | rfl | cases h

namespace Heap

variable {heap : Heap} {good : Value → Prop}

/-! ## What is bound -/

/-- Whatever is bound in any of the scopes has the property. -/
def Holds (good : Value → Prop) (heap : Heap) : Prop :=
  ∀ id name value, heap.binding? id name = some value → good value

theorem holds_initial (good : Value → Prop) : initial.Holds good := by
  rintro (_ | id) name value hfound <;> cases hfound

theorem Holds.lookup (h : heap.Holds good) {scope : ScopeId} {name : String} {value : Value}
    (hfound : heap.lookup scope name = some value) : good value := by
  obtain ⟨id, -, hid⟩ := List.exists_of_findSome?_eq_some hfound
  exact h id name value hid

theorem Holds.bind (h : heap.Holds good) (scope : ScopeId) (name : String) {value : Value}
    (hvalue : good value) : (heap.bind scope name value).Holds good := by
  intro place other found hfound
  by_cases known : scope < heap.scopes.size
  · rw [binding?_bind heap known] at hfound
    split at hfound
    · exact Option.some.inj hfound ▸ hvalue
    · exact h place other found hfound
  · rw [binding?, Heap.bind, Array.getElem?_modify] at hfound
    split at hfound
    · rename_i hscope
      rw [← hscope, Array.getElem?_eq_none (Nat.le_of_not_lt known)] at hfound
      cases hfound
    · exact h place other found hfound

theorem Holds.enclose (h : heap.Holds good) (outer : Option ScopeId) :
    (heap.enclose outer).2.Holds good := by
  intro place name found hfound
  rw [binding?, Heap.enclose, Array.getElem?_push] at hfound
  split at hfound
  · cases hfound
  · exact h place name found hfound

/-- Giving out a stamp changes no scope. -/
theorem Holds.stamp (h : heap.Holds good) : Holds good { heap with stamps := heap.stamps + 1 } :=
  h

/-! ## Clean heaps -/

/-- No scope binds a name to a signal. -/
def Clean (heap : Heap) : Prop :=
  ∀ id name value, heap.binding? id name = some value → value.Plain

theorem clean_initial : initial.Clean :=
  holds_initial Value.Plain

theorem Clean.lookup (h : heap.Clean) {scope : ScopeId} {name : String} {value : Value}
    (hfound : heap.lookup scope name = some value) : value.Plain :=
  Holds.lookup h hfound

theorem Clean.bind (h : heap.Clean) (scope : ScopeId) (name : String) {value : Value}
    (hvalue : value.Plain) : (heap.bind scope name value).Clean :=
  Holds.bind h scope name hvalue

theorem Clean.enclose (h : heap.Clean) (outer : Option ScopeId) : (heap.enclose outer).2.Clean :=
  Holds.enclose h outer

theorem Clean.stamp (h : heap.Clean) : Clean { heap with stamps := heap.stamps + 1 } :=
  Holds.stamp h

end Heap

end MonkeyLang
