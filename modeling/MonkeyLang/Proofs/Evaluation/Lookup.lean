import MonkeyLang.Proofs.Evaluation.Formation
import MonkeyLang.Proofs.Evaluation.Unmentioned

/-!
# What a lookup finds

A lookup walks outward and takes the first binding that it comes to.  Here it is set against all that
was ever done to the scopes: a list of `ScopeAct`s, the oldest first, which interleaves the making of
scopes with bindings in any of them.  Nothing else is known about the heap that the acts lead to
(`ScopeAct.heapAfter`).

The acts alone say which scope stands inside which (`ScopeAct.Makes`, `ScopeAct.Outward`), and which
value a name was last bound to in a scope (`ScopeAct.LastBinds`).  The heap keeps both:

* `ScopeAct.outer_heapAfter` is about the links outward, so that ways outward are the same in the heap
  and in the list (`ScopeAct.outward_iff`),
* `ScopeAct.binding?_heapAfter` is about the bindings of one scope.

`ScopeAct.lookup_heapAfter` puts them together: a lookup finds the last value in the nearest scope that
the name was ever bound in.  In this a later binding, maybe in an outer scope that was long there, can
only change what is looked up under its own name and past scopes that do not have it.
-/

set_option autoImplicit false

namespace MonkeyLang

/-! ## Lists -/

/-- An element of a list with one more at the end is this one or an element of the list. -/
theorem concat_eq_split {α : Type} {items earlier later : List α} {last item : α} :
    items ++ [last] = earlier ++ item :: later ↔
      (earlier = items ∧ item = last ∧ later = []) ∨
        ∃ rest, later = rest ++ [last] ∧ items = earlier ++ item :: rest := by
  constructor
  · intro h
    rcases List.eq_nil_or_concat later with rfl | ⟨rest, other, rfl⟩
    · obtain ⟨rfl, hlast⟩ := List.append_inj' h rfl
      exact .inl ⟨rfl, (List.cons.inj hlast).1.symm, rfl⟩
    · rw [List.concat_eq_append, ← List.cons_append, ← List.append_assoc] at h
      obtain ⟨rfl, hlast⟩ := List.append_inj' h rfl
      cases hlast
      exact .inr ⟨rest, List.concat_eq_append, rfl⟩
  · rintro (⟨rfl, rfl, rfl⟩ | ⟨rest, rfl, rfl⟩)
    · rfl
    · rw [← List.cons_append, ← List.append_assoc]

/-- Two searches of a list that come to different ends differ at some element, and find nothing before
it. -/
theorem exists_of_findSome?_ne {α β : Type} {find find' : α → Option β} :
    ∀ {items : List α}, items.findSome? find ≠ items.findSome? find' →
      ∃ nearer item farther, items = nearer ++ item :: farther ∧
        (∀ other ∈ nearer, find' other = none) ∧ find item ≠ find' item
  | [], hne => absurd rfl hne
  | first :: rest, hne => by
    by_cases hsame : find first = find' first
    · cases hfirst : find' first with
      | some b => simp [hsame, hfirst] at hne
      | none =>
        simp only [List.findSome?_cons, hsame, hfirst] at hne
        obtain ⟨nearer, item, farther, rfl, hnearer, hitem⟩ := exists_of_findSome?_ne hne
        refine ⟨first :: nearer, item, farther, rfl, ?_, hitem⟩
        exact List.forall_mem_cons.2 ⟨hfirst, hnearer⟩
    · exact ⟨[], first, rest, rfl, by simp, hsame⟩

/-! ## Bindings -/

namespace Heap

/-- A binding moves no scope. -/
theorem outer_bind (heap : Heap) (scope id : ScopeId) (name : String) (value : Value) :
    (heap.bind scope name value).scopes[id]?.map Scope.outer = heap.scopes[id]?.map Scope.outer := by
  rw [Heap.bind, Array.getElem?_modify]
  split
  · rw [Option.map_map]
    rfl
  · rfl

/-- A binding leads nowhere else. -/
theorem chainUpTo_bind (heap : Heap) (scope : ScopeId) (name : String) (value : Value) :
    ∀ (length : Nat) (id : ScopeId),
      (heap.bind scope name value).chainUpTo length id = heap.chainUpTo length id
  | 0, _ => rfl
  | length + 1, id => by
    have houter := outer_bind heap scope id name value
    simp only [chainUpTo]
    cases hbefore : heap.scopes[id]? with
    | none =>
      rw [hbefore, Option.map_none, Option.map_eq_none_iff] at houter
      rw [houter]
    | some before =>
      rw [hbefore, Option.map_some, Option.map_eq_some_iff] at houter
      obtain ⟨after, hafter, hsame⟩ := houter
      simp only [hafter, hsame, chainUpTo_bind heap scope name value length]

theorem chain_bind (heap : Heap) (scope id : ScopeId) (name : String) (value : Value) :
    (heap.bind scope name value).chain id = heap.chain id :=
  chainUpTo_bind heap scope name value _ id

/-- A binding changes a lookup only if it is the first that the lookup comes to. -/
theorem of_lookup_bind_ne {heap : Heap} {scope id : ScopeId} {name other : String} {value : Value}
    (hne : (heap.bind scope name value).lookup id other ≠ heap.lookup id other) :
    other = name ∧ ∃ nearer farther, heap.chain id = nearer ++ scope :: farther ∧
      ∀ place ∈ nearer, heap.binding? place name = none := by
  rw [lookup, lookup, chain_bind] at hne
  obtain ⟨nearer, place, farther, hchain, hnearer, hplace⟩ := exists_of_findSome?_ne hne
  by_cases known : scope < heap.scopes.size
  · rw [binding?_bind heap known] at hplace
    split at hplace
    · rename_i hsame
      obtain ⟨rfl, rfl⟩ := hsame
      exact ⟨rfl, nearer, farther, hchain, hnearer⟩
    · exact absurd rfl hplace
  · -- nothing is bound in a scope that was never made
    rw [bind_of_not_lt known] at hplace
    exact absurd rfl hplace

end Heap

/-! ## Acts -/

/-- Something that is done to the scopes: a new one is made, inside another one or inside none, or a
name is bound in one. -/
inductive ScopeAct
  | enclose (outer : Option ScopeId)
  | bind (scope : ScopeId) (name : String) (value : Value)

namespace ScopeAct

variable {acts : List ScopeAct} {act : ScopeAct} {id scope : ScopeId} {name : String} {value : Value}

/-- Does the act in a heap. -/
def perform (heap : Heap) : ScopeAct → Heap
  | enclose outer => (heap.enclose outer).2
  | bind scope name value => heap.bind scope name value

/-- The heap after some acts, the first of which finds no scopes. -/
def heapAfter (acts : List ScopeAct) : Heap :=
  acts.foldl perform {}

/-- The scope that has to be there before the act. -/
def scope? : ScopeAct → Option ScopeId
  | enclose outer => outer
  | bind scope _ _ => some scope

/-- The act makes a scope. -/
def isEnclose : ScopeAct → Bool
  | enclose _ => true
  | bind .. => false

/-- How many scopes are made.  They are numbered in the order in which this happens. -/
def made (acts : List ScopeAct) : Nat :=
  acts.countP isEnclose

/-- Each of the acts is about a scope that was made before it, or about none. -/
inductive Lawful : List ScopeAct → Prop
  | nil : Lawful []
  | concat {acts : List ScopeAct} {act : ScopeAct} (h : Lawful acts)
      (known : ∀ id ∈ act.scope?, id < made acts) : Lawful (acts ++ [act])

/-- The scope is made inside the other one, or inside none. -/
def Makes (acts : List ScopeAct) (id : ScopeId) (outer : Option ScopeId) : Prop :=
  ∃ earlier later, acts = earlier ++ enclose outer :: later ∧ made earlier = id

/-- The name is bound in the scope at some time. -/
def Binds (acts : List ScopeAct) (scope : ScopeId) (name : String) : Prop :=
  ∃ value, bind scope name value ∈ acts

/-- The name is bound to the value in the scope, and to no other there after that. -/
def LastBinds (acts : List ScopeAct) (scope : ScopeId) (name : String) (value : Value) : Prop :=
  ∃ earlier later, acts = earlier ++ bind scope name value :: later ∧ ¬Binds later scope name

/-- The scopes from one on outward, up to one that is made inside no other. -/
inductive Outward (acts : List ScopeAct) : ScopeId → List ScopeId → Prop
  | root {id : ScopeId} (h : Makes acts id none) : Outward acts id [id]
  | inside {id outer : ScopeId} {ids : List ScopeId} (h : Makes acts id (some outer))
      (hrest : Outward acts outer ids) : Outward acts id (id :: ids)

/-! ### One act more -/

theorem heapAfter_concat : heapAfter (acts ++ [act]) = perform (heapAfter acts) act := by
  rw [heapAfter, List.foldl_append]
  rfl

theorem made_concat : made (acts ++ [act]) = made acts + if act.isEnclose then 1 else 0 := by
  rw [made, List.countP_append, List.countP_singleton]
  rfl

theorem makes_concat {outer : Option ScopeId} :
    Makes (acts ++ [act]) id outer ↔ Makes acts id outer ∨ act = enclose outer ∧ id = made acts := by
  simp only [Makes, concat_eq_split]
  constructor
  · rintro ⟨earlier, later, ⟨rfl, rfl, -⟩ | ⟨rest, rfl, rfl⟩, hid⟩
    · exact .inr ⟨rfl, hid.symm⟩
    · exact .inl ⟨earlier, rest, rfl, hid⟩
  · rintro (⟨earlier, rest, rfl, hid⟩ | ⟨rfl, rfl⟩)
    · exact ⟨earlier, _, .inr ⟨rest, rfl, rfl⟩, hid⟩
    · exact ⟨acts, [], .inl ⟨rfl, rfl, rfl⟩, rfl⟩

theorem binds_concat :
    Binds (acts ++ [act]) scope name ↔ Binds acts scope name ∨ ∃ value, act = bind scope name value := by
  simp [Binds, exists_or, eq_comm]

theorem lastBinds_concat :
    LastBinds (acts ++ [act]) scope name value ↔ act = bind scope name value ∨
      LastBinds acts scope name value ∧ ¬∃ other, act = bind scope name other := by
  simp only [LastBinds, concat_eq_split]
  constructor
  · rintro ⟨earlier, later, ⟨rfl, rfl, -⟩ | ⟨rest, rfl, rfl⟩, hlast⟩
    · exact .inl rfl
    · rw [binds_concat, not_or] at hlast
      exact .inr ⟨⟨earlier, rest, rfl, hlast.1⟩, hlast.2⟩
  · rintro (rfl | ⟨⟨earlier, rest, rfl, hlast⟩, hother⟩)
    · exact ⟨acts, [], .inl ⟨rfl, rfl, rfl⟩, by simp [Binds]⟩
    · exact ⟨earlier, _, .inr ⟨rest, rfl, rfl⟩, by
        rw [binds_concat, not_or]
        exact ⟨hlast, hother⟩⟩

/-- What is bound at some time is bound to something at last. -/
theorem exists_lastBinds_iff (h : Lawful acts) :
    (∃ value, LastBinds acts scope name value) ↔ Binds acts scope name := by
  induction h with
  | nil => simp [LastBinds, Binds]
  | @concat acts act _ _ ih =>
    simp only [lastBinds_concat, binds_concat, ← ih, exists_or, exists_and_right]
    by_cases hact : ∃ other, act = bind scope name other <;> simp [hact]

/-! ### What the heap keeps -/

theorem size_heapAfter (h : Lawful acts) : (heapAfter acts).scopes.size = made acts := by
  induction h with
  | nil => rfl
  | @concat acts act _ _ ih =>
    rw [heapAfter_concat, made_concat, ← ih]
    cases act with
    | enclose outer => simp [perform, Heap.enclose, isEnclose]
    | bind scope name value => simp [perform, Heap.size_bind, isEnclose]

/-- Scopes are inside the ones that they were made in. -/
theorem outer_heapAfter (h : Lawful acts) {outer : Option ScopeId} :
    (heapAfter acts).scopes[id]?.map Scope.outer = some outer ↔ Makes acts id outer := by
  induction h with
  | nil => simp [heapAfter, Makes]
  | @concat acts act h _ ih =>
    rw [heapAfter_concat, makes_concat, ← ih]
    cases act with
    | bind scope name value => simp [perform, Heap.outer_bind]
    | enclose around =>
      rw [perform, Heap.enclose, Array.getElem?_push, size_heapAfter h]
      split
      · rename_i hnew
        rw [Array.getElem?_eq_none (Nat.le_of_eq (by rw [size_heapAfter h, hnew]))]
        simp [hnew]
      · rename_i hnew
        simp [hnew]

/-- Scopes have the values that were last bound in them. -/
theorem binding?_heapAfter (h : Lawful acts) :
    (heapAfter acts).binding? scope name = some value ↔ LastBinds acts scope name value := by
  induction h with
  | nil => simp [heapAfter, Heap.binding?, LastBinds]
  | @concat acts act h known ih =>
    rw [heapAfter_concat, lastBinds_concat, ← ih]
    cases act with
    | enclose outer =>
      rw [perform, Heap.binding?, Heap.enclose, Array.getElem?_push]
      split
      · -- the new scope has no bindings, and no act before could bind in it
        rename_i hnew
        simp [Heap.binding?, Array.getElem?_eq_none (Nat.le_of_eq hnew.symm), Scope.find?]
      · simp [Heap.binding?]
    | bind place other bound =>
      rw [perform, Heap.binding?_bind _ (size_heapAfter h ▸ known place rfl)]
      by_cases hsame : scope = place ∧ name = other
      · obtain ⟨rfl, rfl⟩ := hsame
        simp
      · rw [if_neg hsame]
        have hother : ∀ value, bind place other bound ≠ bind scope name value := by
          rintro value ⟨⟩
          exact hsame ⟨rfl, rfl⟩
        simp [hother]

theorem binding?_heapAfter_eq_none (h : Lawful acts) :
    (heapAfter acts).binding? scope name = none ↔ ¬Binds acts scope name := by
  rw [← exists_lastBinds_iff h, Option.eq_none_iff_forall_ne_some]
  simp only [ne_eq, binding?_heapAfter h, not_exists]

/-- A scope is made inside an older one. -/
theorem Lawful.lt_of_makes (h : Lawful acts) {outer : ScopeId} (hmakes : Makes acts id (some outer)) :
    outer < id := by
  induction h with
  | nil => simp [Makes] at hmakes
  | concat h known ih =>
    rcases makes_concat.1 hmakes with hmakes | ⟨rfl, rfl⟩
    · exact ih hmakes
    · exact known outer rfl

theorem layered_heapAfter (h : Lawful acts) : (heapAfter acts).Layered :=
  fun id outer scope hscope houter => h.lt_of_makes <| (outer_heapAfter h).1 <| by
    rw [hscope, Option.map_some, houter]

theorem outward_iff (h : Lawful acts) {ids : List ScopeId} :
    Outward acts id ids ↔ (heapAfter acts).Outward id ids := by
  constructor
  · intro hids
    induction hids with
    | root hmakes =>
      obtain ⟨scope, hscope, houter⟩ := Option.map_eq_some_iff.1 ((outer_heapAfter h).2 hmakes)
      exact .root hscope houter
    | inside hmakes _ ih =>
      obtain ⟨scope, hscope, houter⟩ := Option.map_eq_some_iff.1 ((outer_heapAfter h).2 hmakes)
      exact .inside hscope houter ih
  · intro hids
    induction hids with
    | root hscope houter => exact .root ((outer_heapAfter h).1 (by rw [hscope, Option.map_some, houter]))
    | inside hscope houter _ ih =>
      exact .inside ((outer_heapAfter h).1 (by rw [hscope, Option.map_some, houter])) ih

/-- The scopes that a lookup goes through are the ones outward. -/
theorem outward_iff_eq_chain (h : Lawful acts) (known : id < made acts) {ids : List ScopeId} :
    Outward acts id ids ↔ ids = (heapAfter acts).chain id := by
  have hchain := (layered_heapAfter h).outward_chain ((size_heapAfter h).symm ▸ known)
  rw [outward_iff h]
  exact ⟨fun hids => hids.unique hchain, fun hids => hids ▸ hchain⟩

/-! ### Lookups -/

/-- **A lookup finds the last value in the nearest scope.**  Whatever was done to the scopes, there is
one way outward from each, and a name is found exactly if it was ever bound in a scope on this way.
Then it has the value that it was last bound to in the nearest of them.  So one binding more changes
only what is looked up under this name, and only from scopes on whose way outward to the scope of the
binding there is no other that the name was ever bound in. -/
theorem lookup_heapAfter {acts : List ScopeAct} (h : Lawful acts) {id : ScopeId}
    (known : id < made acts) :
    ∃ chain, (∀ ids, Outward acts id ids ↔ ids = chain) ∧
      (∀ name, ((heapAfter acts).lookup id name).isSome ↔ ∃ scope ∈ chain, Binds acts scope name) ∧
      (∀ name value, (heapAfter acts).lookup id name = some value ↔
        ∃ nearer scope farther, chain = nearer ++ scope :: farther ∧
          (∀ place ∈ nearer, ¬Binds acts place name) ∧ LastBinds acts scope name value) ∧
      ∀ scope name value other,
        (heapAfter (acts ++ [bind scope name value])).lookup id other ≠
            (heapAfter acts).lookup id other →
          other = name ∧ ∃ nearer farther, chain = nearer ++ scope :: farther ∧
            ∀ place ∈ nearer, ¬Binds acts place name := by
  refine ⟨(heapAfter acts).chain id, fun ids => outward_iff_eq_chain h known, fun name => ?_,
    fun name value => ?_, fun scope name value other hne => ?_⟩
  · rw [Heap.lookup, List.findSome?_isSome_iff]
    simp only [← exists_lastBinds_iff h, ← binding?_heapAfter h, Option.isSome_iff_exists]
  · rw [Heap.lookup, List.findSome?_eq_some_iff]
    simp only [binding?_heapAfter h, binding?_heapAfter_eq_none h]
    constructor
    · rintro ⟨nearer, scope, farther, hchain, hlast, hnearer⟩
      exact ⟨nearer, scope, farther, hchain, hnearer, hlast⟩
    · rintro ⟨nearer, scope, farther, hchain, hnearer, hlast⟩
      exact ⟨nearer, scope, farther, hchain, hlast, hnearer⟩
  · rw [heapAfter_concat] at hne
    obtain ⟨hname, nearer, farther, hchain, hnearer⟩ := Heap.of_lookup_bind_ne hne
    exact ⟨hname, nearer, farther, hchain, fun place hplace =>
      (binding?_heapAfter_eq_none h).1 (hnearer place hplace)⟩

/-- A name is bound in the middle one of three scopes and then in the outer one.  From the inner one it
is still found in the middle, whatever is bound in the outer one after that. -/
theorem lookup_heapAfter_shadowed :
    let acts := [enclose none, enclose (some 0), enclose (some 1), bind 1 "x" (.boolean true),
      bind 0 "y" (.boolean true), bind 0 "x" (.boolean false)]
    Lawful acts ∧ 2 < made acts ∧ (∀ ids, Outward acts 2 ids ↔ ids = [2, 1, 0]) ∧
      (heapAfter acts).lookup 2 "x" = some (.boolean true) ∧
      (heapAfter acts).lookup 2 "y" = some (.boolean true) ∧
      ∀ value, (heapAfter (acts ++ [bind 0 "x" value])).lookup 2 "x" = some (.boolean true) := by
  intro acts
  have h₁ : Lawful (acts.take 1) := Lawful.nil.concat (by simp [scope?])
  have h₂ : Lawful (acts.take 2) := h₁.concat (by decide)
  have h₃ : Lawful (acts.take 3) := h₂.concat (by decide)
  have h₄ : Lawful (acts.take 4) := h₃.concat (by decide)
  have h₅ : Lawful (acts.take 5) := h₄.concat (by decide)
  have hlawful : Lawful acts := h₅.concat (by decide)
  have hknown : 2 < made acts := by decide
  obtain ⟨chain, houtward, -, hvalue, hchange⟩ := lookup_heapAfter hlawful hknown
  obtain rfl : [2, 1, 0] = chain := (houtward _).1 <|
    .inside ⟨acts.take 2, _, rfl, rfl⟩ <| .inside ⟨acts.take 1, _, rfl, rfl⟩ <|
      .root ⟨[], _, rfl, rfl⟩
  have hx : (heapAfter acts).lookup 2 "x" = some (.boolean true) :=
    (hvalue _ _).2 ⟨[2], 1, [0], rfl, by simp [acts, Binds], acts.take 3, _, rfl, by simp [Binds]⟩
  have hy : (heapAfter acts).lookup 2 "y" = some (.boolean true) :=
    (hvalue _ _).2 ⟨[2, 1], 0, [], rfl, by simp [acts, Binds], acts.take 4, _, rfl, by simp [Binds]⟩
  refine ⟨hlawful, hknown, houtward, hx, hy, fun value => ?_⟩
  refine (Classical.byContradiction fun hne => ?_ : _ = (heapAfter acts).lookup 2 "x").trans hx
  obtain ⟨-, nearer, farther, hchain, hnearer⟩ := hchange 0 "x" value "x" hne
  have hmiddle : 1 ∈ nearer := by
    rcases nearer with _ | ⟨first, _ | ⟨second, rest⟩⟩ <;> simp_all
  exact hnearer 1 hmiddle ⟨.boolean true, by simp [acts]⟩

end ScopeAct

end MonkeyLang
