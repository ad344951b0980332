/-
# Machines that agree on some scopes

Two machines agree on a set of scopes when they have the same number of scopes,
the same contents in each scope of the set, and the same of all that is not
scopes.  A region covers a machine when it is closed in it and holds all scopes
still to be made.  Each change that a run makes to a machine keeps both, as long
as what it puts into a scope leads into the region only.
-/
import Scriptlet.Machine
import Scriptlet.Proofs.Scopes.Reach

namespace Scriptlet

/-- The machines differ in scopes outside the set at most. -/
structure Machine.AgreeOn (S : ScopeId → Prop) (m m' : Machine) : Prop where
  size : m'.scopes.size = m.scopes.size
  scopes : ∀ id, S id → m'.scopes[id]? = m.scopes[id]?
  functions : m'.functions = m.functions
  callDepth : m'.callDepth = m.callDepth
  sink : m'.sink = m.sink
  clock : m'.clock = m.clock

/-- Nothing that the region holds leads out of it, now or later. -/
structure Region.Covers (R : Region) (m : Machine) : Prop where
  closed : R.Closed m.scopes
  fresh : ∀ id, m.scopes.size ≤ id → R.scopes id

theorem Region.covers_reached (m : Machine) (roots : List ScopeId) :
    (reached m.scopes roots).Covers m :=
  ⟨closed_reached roots, fun _ h => .inr h⟩

theorem Region.covers_found (m : Machine) (given : List Value) :
    (found m.scopes given).Covers m :=
  ⟨closed_found given, fun _ h => .inr h⟩

/-! ## Bindings -/

namespace Bindings

theorem eq_or_get?_of_get?_insert {name other : String} {value v : Value} {bindings : Bindings}
    (h : (bindings.insert name value).get? other = some v) :
    v = value ∨ bindings.get? other = some v := by
  rw [get?_insert] at h
  split at h
  · exact .inl (Option.some.inj h).symm
  · exact .inr h

/-- What a scope made for a call binds a name to is the argument at its place. -/
theorem mem_zip_of_get?_ofLists {names : List String} {values : List Value} {name : String}
    {v : Value} (h : (ofLists names values).get? name = some v) : (name, v) ∈ names.zip values := by
  suffices ∀ (pairs : List (String × Value)) (bindings : Bindings),
      (pairs.foldl (fun bindings pair => bindings.insert pair.1 pair.2) bindings).get? name
        = some v → bindings.get? name = some v ∨ (name, v) ∈ pairs from
    (this _ _ h).resolve_left nofun
  intro pairs
  induction pairs with
  | nil => exact fun _ h => .inl h
  | cons pair pairs ih =>
    obtain ⟨key, value⟩ := pair
    intro bindings h
    rcases ih _ h with inserted | later
    · rw [get?_insert] at inserted
      split at inserted
      case isTrue same =>
        subst same
        cases inserted
        exact .inr List.mem_cons_self
      case isFalse => exact .inl inserted
    · exact .inr (List.mem_cons_of_mem _ later)

theorem mem_of_get?_ofLists {names : List String} {values : List Value} {name : String}
    {v : Value} (h : (ofLists names values).get? name = some v) : v ∈ values :=
  (List.of_mem_zip (mem_zip_of_get?_ofLists h)).2

end Bindings

/-! ## Names -/

namespace Machine.AgreeOn

variable {R : Region} {m m' : Machine}

theorem refl (S : ScopeId → Prop) (m : Machine) : m.AgreeOn S m :=
  ⟨rfl, fun _ _ => rfl, rfl, rfl, rfl, rfl⟩

/-- Two machines that agree on a closed region have the same nearest binding of
a name, and it is in the region. -/
theorem resolveWithin (h : m.AgreeOn R.scopes m') (hc : R.Closed m.scopes) (name : String) :
    ∀ (steps : Nat) (id : ScopeId), R.scopes id →
      m'.scopes.resolveWithin name steps id = m.scopes.resolveWithin name steps id ∧
        ∀ home, m.scopes.resolveWithin name steps id = some home → R.scopes home := by
  intro steps
  induction steps with
  | zero => exact fun _ _ => ⟨rfl, nofun⟩
  | succ steps ih =>
    intro id hid
    simp only [Scopes.resolveWithin, h.scopes id hid]
    cases hs : m.scopes[id]? with
    | none => exact ⟨rfl, nofun⟩
    | some scope =>
      dsimp only
      split
      · refine ⟨rfl, fun home hh => ?_⟩
        rw [← Option.some.inj hh]
        exact hid
      · cases ho : scope.enclosing with
        | none => exact ⟨rfl, nofun⟩
        | some outer => exact ih outer (hc.enclosing hid hs ho)

theorem resolve (h : m.AgreeOn R.scopes m') (hc : R.Closed m.scopes) {id : ScopeId}
    (hid : R.scopes id) (name : String) :
    m'.scopes.resolve id name = m.scopes.resolve id name := by
  unfold Scopes.resolve
  rw [h.size]
  exact (h.resolveWithin hc name _ id hid).1

theorem local? (h : m.AgreeOn R.scopes m') {id : ScopeId} (hid : R.scopes id) (name : String) :
    m'.scopes.local? id name = m.scopes.local? id name := by
  unfold Scopes.local?
  rw [h.scopes id hid]

end Machine.AgreeOn

namespace Region.Closed

variable {R : Region} {m : Machine} {id home : ScopeId} {name : String}

theorem of_resolve (hc : R.Closed m.scopes) (hid : R.scopes id)
    (hh : m.scopes.resolve id name = some home) : R.scopes home :=
  ((Machine.AgreeOn.refl R.scopes m).resolveWithin hc name _ id hid).2 home hh

/-- A name of the region has a value that leads into the region only. -/
theorem within_of_get? (hc : R.Closed m.scopes) (hid : R.scopes id) (hn : R.names name)
    {value : Value} (hv : m.scopes.get? id name = some value) : value.Within R := by
  obtain ⟨home, hh, hv⟩ := Option.bind_eq_some_iff.1 hv
  exact hc.bound (hc.of_resolve hid hh) hn hv

end Region.Closed

theorem Machine.AgreeOn.get? {R : Region} {m m' : Machine} (h : m.AgreeOn R.scopes m')
    (hc : R.Closed m.scopes) {id : ScopeId} (hid : R.scopes id) (name : String) :
    m'.scopes.get? id name = m.scopes.get? id name := by
  unfold Scopes.get?
  rw [h.resolve hc hid]
  cases hh : m.scopes.resolve id name with
  | none => rfl
  | some home => exact h.local? (hc.of_resolve hid hh) name

/-! ## Changes -/

namespace Machine

variable {R : Region} {m m' : Machine}

theorem getElem?_define (m : Machine) (id other : ScopeId) (name : String) (value : Value) :
    (m.define id name value).scopes[other]? =
      if id = other then
        m.scopes[other]?.map fun scope =>
          { scope with bindings := scope.bindings.insert name value }
      else m.scopes[other]? :=
  Array.getElem?_modify

theorem size_define (m : Machine) (id : ScopeId) (name : String) (value : Value) :
    (m.define id name value).scopes.size = m.scopes.size :=
  Array.size_modify

theorem getElem?_addScope (scope : Scope) (m : Machine) (id : ScopeId) :
    (m.addScope scope).2.scopes[id]? =
      if id = m.scopes.size then some scope else m.scopes[id]? :=
  Array.getElem?_push

theorem AgreeOn.define (h : m.AgreeOn R.scopes m') (id : ScopeId) (name : String)
    (value : Value) : (m.define id name value).AgreeOn R.scopes (m'.define id name value) where
  size := by rw [size_define, size_define, h.size]
  scopes := by
    intro other ho
    rw [getElem?_define, getElem?_define, h.scopes other ho]
  functions := h.functions
  callDepth := h.callDepth
  sink := h.sink
  clock := h.clock

theorem AgreeOn.addScope (h : m.AgreeOn R.scopes m') (scope : Scope) :
    (m.addScope scope).2.AgreeOn R.scopes (m'.addScope scope).2 where
  size := by simp [Machine.addScope, h.size]
  scopes := by
    intro id hid
    rw [getElem?_addScope, getElem?_addScope, h.size, h.scopes id hid]
  functions := h.functions
  callDepth := h.callDepth
  sink := h.sink
  clock := h.clock

end Machine

namespace Region.Covers

variable {R : Region} {m : Machine}

theorem define (h : R.Covers m) {value : Value} (hv : value.Within R) (id : ScopeId)
    (name : String) : R.Covers (m.define id name value) where
  closed.enclosing := by
    intro other outer scope ho hs he
    rw [Machine.getElem?_define] at hs
    split at hs
    · obtain ⟨before, hb, rfl⟩ := Option.map_eq_some_iff.1 hs
      exact h.closed.enclosing ho hb he
    · exact h.closed.enclosing ho hs he
  closed.bound := by
    intro other key v ho hk hv'
    obtain ⟨scope, hs, hv'⟩ := Option.bind_eq_some_iff.1 hv'
    rw [Machine.getElem?_define] at hs
    split at hs
    · obtain ⟨before, hb, rfl⟩ := Option.map_eq_some_iff.1 hs
      rcases Bindings.eq_or_get?_of_get?_insert hv' with rfl | hv'
      · exact hv
      · exact h.closed.bound ho hk (Option.bind_eq_some_iff.2 ⟨before, hb, hv'⟩)
    · exact h.closed.bound ho hk (Option.bind_eq_some_iff.2 ⟨scope, hs, hv'⟩)
  fresh := by
    intro other ho
    rw [Machine.size_define] at ho
    exact h.fresh other ho

theorem addScope (h : R.Covers m) {scope : Scope}
    (he : ∀ outer, scope.enclosing = some outer → R.scopes outer)
    (hb : ∀ name value, scope.bindings.get? name = some value → value.Within R) :
    R.Covers (m.addScope scope).2 where
  closed.enclosing := by
    intro id outer other hid ho hout
    rw [Machine.getElem?_addScope] at ho
    split at ho
    · cases ho
      exact he outer hout
    · exact h.closed.enclosing hid ho hout
  closed.bound := by
    intro id name value hid hn hv
    obtain ⟨other, ho, hv⟩ := Option.bind_eq_some_iff.1 hv
    rw [Machine.getElem?_addScope] at ho
    split at ho
    · cases ho
      exact hb name value hv
    · exact h.closed.bound hid hn (Option.bind_eq_some_iff.2 ⟨other, ho, hv⟩)
  fresh := by
    intro id hid
    have hs : (m.addScope scope).2.scopes.size = m.scopes.size + 1 := Array.size_push ..
    exact h.fresh id (by omega)

end Region.Covers

end Scriptlet
