/-
# Scopes within reach

Which scopes a computation may get at, as far as the scopes and the functions
bound in them tell.  `Reach` follows every link: from a scope to the one around
it and to the scopes that functions bound in it close over.  `Finds` is for
calls, and follows a binding only if code that may run mentions its name.  So
two counters that one maker made and that are both bound in the global scope
reach each other, yet a call of one does not find the other.

A `Region` is a set of scopes and a set of names.  It is closed when what it
holds leads nowhere else, as a region of all that is within reach does.
-/
import Scriptlet.Scope
import Scriptlet.Proofs.Tree.Names

namespace Scriptlet

namespace Scopes

/-- A scope is reached from some scopes by going outward and by going to the
scopes that functions close over, any number of times. -/
inductive Reach (scopes : Scopes) (roots : List ScopeId) : ScopeId → Prop
  | root {id : ScopeId} : id ∈ roots → Reach scopes roots id
  | enclosing {id outer : ScopeId} {scope : Scope} : Reach scopes roots id →
      scopes[id]? = some scope → scope.enclosing = some outer → Reach scopes roots outer
  | closure {id : ScopeId} {name : String} {f : Closure} : Reach scopes roots id →
      scopes.local? id name = some (.function f) → Reach scopes roots f.scope

/-- What a computation may come by. -/
inductive Thing where
  | scope (id : ScopeId)
  | name (lexeme : String)
  | function (f : Closure)

/-- What a call may come by that has the given values, its callee among them:
the functions that are given or bound to a name that it finds, their scopes and
the ones around these, and the names in their bodies. -/
inductive Finds (scopes : Scopes) (given : List Value) : Thing → Prop
  | given {f : Closure} : .function f ∈ given → Finds scopes given (.function f)
  | bound {id : ScopeId} {name : String} {f : Closure} : Finds scopes given (.scope id) →
      Finds scopes given (.name name) → scopes.local? id name = some (.function f) →
      Finds scopes given (.function f)
  | scope {f : Closure} : Finds scopes given (.function f) → Finds scopes given (.scope f.scope)
  | name {f : Closure} {name : String} : Finds scopes given (.function f) → name ∈ f.names →
      Finds scopes given (.name name)
  | enclosing {id outer : ScopeId} {scope : Scope} : Finds scopes given (.scope id) →
      scopes[id]? = some scope → scope.enclosing = some outer → Finds scopes given (.scope outer)

end Scopes

/-! ## Regions -/

structure Region where
  scopes : ScopeId → Prop
  names : String → Prop

/-- The value leads into the region only. -/
def Value.Within (R : Region) : Value → Prop
  | .function f => R.scopes f.scope ∧ ∀ name ∈ f.names, R.names name
  | _ => True

namespace Region

/-- What the region holds leads into the region only. -/
structure Closed (R : Region) (scopes : Scopes) : Prop where
  enclosing : ∀ {id outer : ScopeId} {scope : Scope}, R.scopes id →
    scopes[id]? = some scope → scope.enclosing = some outer → R.scopes outer
  bound : ∀ {id : ScopeId} {name : String} {value : Value}, R.scopes id → R.names name →
    scopes.local? id name = some value → value.Within R

/-- All that is within reach of a scope, with all scopes still to be made. -/
def reached (scopes : Scopes) (roots : List ScopeId) : Region :=
  ⟨fun id => scopes.Reach roots id ∨ scopes.size ≤ id, fun _ => True⟩

/-- All that a call finds, with all scopes still to be made. -/
def found (scopes : Scopes) (given : List Value) : Region :=
  ⟨fun id => scopes.Finds given (.scope id) ∨ scopes.size ≤ id,
    fun name => scopes.Finds given (.name name)⟩

variable {scopes : Scopes}

/-- A scope that is there is not one still to be made. -/
theorem lt_size_of_getElem? {id : ScopeId} {scope : Scope} (h : scopes[id]? = some scope) :
    id < scopes.size :=
  (Array.getElem?_eq_some_iff.1 h).1

theorem lt_size_of_local? {id : ScopeId} {name : String} {value : Value}
    (h : scopes.local? id name = some value) : id < scopes.size := by
  obtain ⟨scope, hs, -⟩ := Option.bind_eq_some_iff.1 h
  exact lt_size_of_getElem? hs

theorem closed_reached (roots : List ScopeId) : (reached scopes roots).Closed scopes where
  enclosing := by
    intro id outer scope hid hs ho
    rcases hid with hid | hid
    · exact .inl (.enclosing hid hs ho)
    · exact absurd (lt_size_of_getElem? hs) (Nat.not_lt.2 hid)
  bound := by
    intro id name value hid _ hv
    rcases hid with hid | hid
    · cases value with
      | function f => exact ⟨.inl (.closure hid hv), fun _ _ => trivial⟩
      | _ => trivial
    · exact absurd (lt_size_of_local? hv) (Nat.not_lt.2 hid)

/-- What is given to a call leads only to what the call finds. -/
theorem within_found {given : List Value} {value : Value} (h : value ∈ given) :
    value.Within (found scopes given) := by
  cases value with
  | function f => exact ⟨.inl (.scope (.given h)), fun _ hn => .name (.given h) hn⟩
  | _ => trivial

theorem closed_found (given : List Value) : (found scopes given).Closed scopes where
  enclosing := by
    intro id outer scope hid hs ho
    rcases hid with hid | hid
    · exact .inl (.enclosing hid hs ho)
    · exact absurd (lt_size_of_getElem? hs) (Nat.not_lt.2 hid)
  bound := by
    intro id name value hid hn hv
    rcases hid with hid | hid
    · cases value with
      | function f =>
        have hf := Scopes.Finds.bound hid hn hv
        exact ⟨.inl (.scope hf), fun _ h => .name hf h⟩
      | _ => trivial
    · exact absurd (lt_size_of_local? hv) (Nat.not_lt.2 hid)

end Region

end Scriptlet
