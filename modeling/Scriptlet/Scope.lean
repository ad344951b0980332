/-
# Scopes

All scopes of a run live side by side in one array and point to the scope
around them by number.  Scopes are added and never removed, and one is made
after the scope around it, so a walk outward passes each scope at most once.
That is why the walks below may stop after as many steps as there are scopes.
-/
import Scriptlet.Value.Basic

namespace Scriptlet

/-! ## Bindings of one scope -/

/-- Names with their values, each name once. -/
abbrev Bindings := List (String × Value)

namespace Bindings

/-- Binds a name, replacing what it was bound to. -/
def insert (name : String) (value : Value) : Bindings → Bindings
  | [] => [(name, value)]
  | (other, old) :: rest =>
    if other = name then (name, value) :: rest else (other, old) :: insert name value rest

/-- What a name is bound to. -/
def get? (name : String) : Bindings → Option Value
  | [] => none
  | (other, value) :: rest => if other = name then some value else get? name rest

/-- Binds each name to the value at its place. -/
def ofLists (names : List String) (values : List Value) : Bindings :=
  (names.zip values).foldl (fun bindings (name, value) => bindings.insert name value) []

theorem get?_insert (name other : String) (value : Value) (bindings : Bindings) :
    (bindings.insert name value).get? other =
      if name = other then some value else bindings.get? other := by
  induction bindings with
  | nil => rfl
  | cons binding rest ih =>
    obtain ⟨key, old⟩ := binding
    by_cases hk : key = name
    · subst hk
      by_cases h : key = other <;> simp [insert, get?, h]
    · by_cases h : key = other
      · subst h
        simp [insert, get?, hk, Ne.symm hk]
      · simp [insert, get?, hk, h, ih]

end Bindings

structure Scope where
  bindings : Bindings
  /-- The scope around this one. -/
  enclosing : Option ScopeId
deriving DecidableEq

/-- All scopes of a run, in the order they were made. -/
abbrev Scopes := Array Scope

namespace Scopes

/-! ## The nearest binding -/

/-- The nearest scope that binds `name`, looking from `id` outward through at
most `steps` scopes. -/
def resolveWithin (scopes : Scopes) (name : String) : (steps : Nat) → ScopeId → Option ScopeId
  | 0, _ => none
  | steps + 1, id =>
    match scopes[id]? with
    | none => none
    | some scope =>
      if (scope.bindings.get? name).isSome then some id
      else
        match scope.enclosing with
        | none => none
        | some outer => resolveWithin scopes name steps outer

/-- The nearest scope that binds `name`, from `id` outward. -/
def resolve (scopes : Scopes) (id : ScopeId) (name : String) : Option ScopeId :=
  scopes.resolveWithin name scopes.size id

/-- What a scope itself binds `name` to. -/
def local? (scopes : Scopes) (id : ScopeId) (name : String) : Option Value :=
  scopes[id]?.bind (·.bindings.get? name)

/-- The value of `name` as seen from a scope. -/
def get? (scopes : Scopes) (id : ScopeId) (name : String) : Option Value :=
  (scopes.resolve id name).bind (scopes.local? · name)

/-! ## Changes -/

/-- Binds a name in one scope and hides what it meant further out. -/
def define (scopes : Scopes) (id : ScopeId) (name : String) (value : Value) : Scopes :=
  scopes.modify id fun scope => { scope with bindings := scope.bindings.insert name value }

/-- Gives a new value to the nearest binding of a name, if there is one. -/
def assign? (scopes : Scopes) (id : ScopeId) (name : String) (value : Value) :
    Option Scopes :=
  match scopes.resolve id name with
  | some home => some (scopes.define home name value)
  | none => none

end Scopes

end Scriptlet
