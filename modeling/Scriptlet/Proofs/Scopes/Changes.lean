/-
# What a change shows

Scopes are read in two ways only: for what one of them binds a name to, and for
the scope around it.  Here is what both give after a name was bound and after a
scope was added.
-/
import Scriptlet.Scope

namespace Scriptlet

/-- A new scope binds nothing. -/
theorem Bindings.get?_nil_ne {name : String} {value : Value} : get? name [] ≠ some value := by
  intro h
  cases h

theorem Bindings.mem_of_get? {name : String} {value : Value} {bindings : Bindings}
    (h : bindings.get? name = some value) : (name, value) ∈ bindings := by
  induction bindings with
  | nil => cases h
  | cons binding rest ih =>
    obtain ⟨key, v⟩ := binding
    rw [get?] at h
    split at h
    case isTrue same =>
      cases same
      cases h
      exact List.mem_cons_self
    case isFalse => exact List.mem_cons_of_mem _ (ih h)

namespace Scopes

/-- The scope around another, if there is one. -/
def outer? (scopes : Scopes) (id : ScopeId) : Option ScopeId := scopes[id]?.bind (·.enclosing)

variable {scopes : Scopes} {id other : ScopeId} {name key : String} {value : Value}

theorem local?_of_getElem? {scope : Scope} (h : scopes[id]? = some scope) :
    scopes.local? id name = scope.bindings.get? name := by
  unfold local?
  rw [h]
  rfl

theorem local?_of_size_le (h : scopes.size ≤ id) : scopes.local? id name = none := by
  unfold local?
  rw [Array.getElem?_eq_none h]
  rfl

theorem outer?_of_getElem? {scope : Scope} (h : scopes[id]? = some scope) :
    scopes.outer? id = scope.enclosing := by
  unfold outer?
  rw [h]
  rfl

theorem outer?_of_size_le (h : scopes.size ≤ id) : scopes.outer? id = none := by
  unfold outer?
  rw [Array.getElem?_eq_none h]
  rfl

theorem lt_size_of_outer? {outer : ScopeId} (h : scopes.outer? id = some outer) :
    id < scopes.size := by
  refine Nat.lt_of_not_le fun above => ?_
  rw [outer?_of_size_le above] at h
  cases h

/-! ## Binding a name -/

theorem size_define (scopes : Scopes) (id : ScopeId) (name : String) (value : Value) :
    (scopes.define id name value).size = scopes.size :=
  Array.size_modify

theorem outer?_define (scopes : Scopes) (id : ScopeId) (name : String) (value : Value)
    (other : ScopeId) : (scopes.define id name value).outer? other = scopes.outer? other := by
  unfold outer? define
  rw [Array.getElem?_modify]
  split
  · cases scopes[other]? <;> rfl
  · rfl

theorem local?_define_self (h : id < scopes.size) :
    (scopes.define id name value).local? id key =
      if name = key then some value else scopes.local? id key := by
  unfold local? define
  rw [Array.getElem?_modify, if_pos rfl, Array.getElem?_eq_getElem h]
  exact Bindings.get?_insert name key value _

theorem local?_define_ne (h : id ≠ other) :
    (scopes.define id name value).local? other key = scopes.local? other key := by
  unfold local? define
  rw [Array.getElem?_modify, if_neg h]

/-- What is bound after a name was bound is the new value or was there before. -/
theorem eq_or_local?_of_local?_define {v : Value}
    (h : (scopes.define id name value).local? other key = some v) :
    v = value ∨ scopes.local? other key = some v := by
  by_cases same : id = other
  · subst same
    by_cases there : id < scopes.size
    · rw [local?_define_self there] at h
      split at h
      · exact .inl (Option.some.inj h).symm
      · exact .inr h
    · rw [local?_of_size_le (size_define scopes id name value ▸ Nat.not_lt.1 there)] at h
      cases h
  · rw [local?_define_ne same] at h
    exact .inr h

/-! ## Adding a scope -/

theorem outer?_push (scopes : Scopes) (scope : Scope) (id : ScopeId) :
    outer? (scopes.push scope) id =
      if id = scopes.size then scope.enclosing else scopes.outer? id := by
  unfold outer?
  rw [Array.getElem?_push]
  split <;> rfl

theorem local?_push (scopes : Scopes) (scope : Scope) (id : ScopeId) (name : String) :
    local? (scopes.push scope) id name =
      if id = scopes.size then scope.bindings.get? name else scopes.local? id name := by
  unfold local?
  rw [Array.getElem?_push]
  split <;> rfl

/-! ## The nearest binding -/

/-- One step outward. -/
theorem resolveWithin_succ (scopes : Scopes) (name : String) (steps : Nat) (id : ScopeId) :
    scopes.resolveWithin name (steps + 1) id =
      if (scopes.local? id name).isSome then some id
      else (scopes.outer? id).bind (scopes.resolveWithin name steps) := by
  rw [resolveWithin]
  cases hs : scopes[id]? with
  | none =>
    unfold local? outer?
    rw [hs]
    rfl
  | some scope =>
    rw [local?_of_getElem? hs, outer?_of_getElem? hs]
    dsimp only
    split
    · rfl
    · cases scope.enclosing <;> rfl

/-- No scope on the way from one scope outward to another binds the name, but for
the other maybe. -/
inductive Clear (scopes : Scopes) (name : String) : ScopeId → ScopeId → Prop
  | here {home : ScopeId} : Clear scopes name home home
  | outward {id outer home : ScopeId} : ¬ (scopes.local? id name).isSome →
      scopes.outer? id = some outer → Clear scopes name outer home → Clear scopes name id home

/-- A search that ends has come by a clear way to a scope that binds the name. -/
theorem nearest_of_resolve {home : ScopeId} (h : scopes.resolve id name = some home) :
    scopes.Clear name id home ∧ (scopes.local? home name).isSome := by
  suffices ∀ steps id, scopes.resolveWithin name steps id = some home →
      scopes.Clear name id home ∧ (scopes.local? home name).isSome from this _ id h
  intro steps
  induction steps with
  | zero => exact fun _ => nofun
  | succ steps ih =>
    intro id found
    rw [resolveWithin_succ] at found
    split at found
    case isTrue bound =>
      cases found
      exact ⟨.here, bound⟩
    case isFalse free =>
      obtain ⟨outer, link, found⟩ := Option.bind_eq_some_iff.1 found
      obtain ⟨clear, bound⟩ := ih outer found
      exact ⟨.outward free link clear, bound⟩

/-- The nearest scope that binds a name binds it. -/
theorem bound_of_resolve {home : ScopeId} (h : scopes.resolve id name = some home) :
    (scopes.local? home name).isSome :=
  (nearest_of_resolve h).2

/-- What holds of each scope further out holds at the end of a way. -/
theorem Clear.closed {S : ScopeId → Prop} {home : ScopeId} (way : scopes.Clear name id home)
    (outward : ∀ {id outer}, S id → scopes.outer? id = some outer → S outer) (hid : S id) :
    S home := by
  induction way with
  | here => exact hid
  | outward _ link _ ih => exact ih (outward hid link)

end Scopes

end Scriptlet
