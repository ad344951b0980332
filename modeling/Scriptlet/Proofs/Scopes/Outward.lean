/-
# Scopes lead outward

Functions may close over the scope that they are bound in, so values lead from
scope to scope in circles.  The links from a scope to the one around it never
do: each leads to a scope that was made before.  That is an invariant of all
that can be done to a machine, and of each moment of a run, together with the
fact that no function closes over a scope that is not there.

A lookup or an assignment walks along these links without counting its steps
and holds on to each scope it has come through until it is done, an assignment
so that nobody else may.  `Walk` is that walk, and has the ways to go wrong: to
come to a scope that it already holds, or to one that is not there.  By the
invariant it does neither, and ends where the bounded search of `resolve` does.
-/
import Scriptlet.Proofs.Run.Discipline

namespace Scriptlet

namespace Scopes

/-- Links lead to scopes that are there, and outward to older ones. -/
structure WellFormed (scopes : Scopes) : Prop where
  outward : ∀ {id outer}, scopes.outer? id = some outer → outer < id
  closures : ∀ {id name value}, scopes.local? id name = some value →
    value.ClosesOver (· < scopes.size)

/-! ## Walks -/

/-- How a walk ends. -/
inductive WalkEnd where
  /-- At a scope that binds the name. -/
  | found (home : ScopeId)
  /-- Behind the outermost scope. -/
  | missing
  /-- At a scope that the walk holds already. -/
  | clash
  /-- At a scope that is not there. -/
  | dangling

/-- A walk in search of `name`, with the scopes that it holds, from the scope it
has come to until its end. -/
inductive Walk (scopes : Scopes) (name : String) : List ScopeId → ScopeId → WalkEnd → Prop
  | clash {held : List ScopeId} {id : ScopeId} : id ∈ held → Walk scopes name held id .clash
  | dangling {held : List ScopeId} {id : ScopeId} : id ∉ held → scopes[id]? = none →
      Walk scopes name held id .dangling
  | found {held : List ScopeId} {id : ScopeId} {scope : Scope} : id ∉ held →
      scopes[id]? = some scope → (scope.bindings.get? name).isSome →
      Walk scopes name held id (.found id)
  | missing {held : List ScopeId} {id : ScopeId} {scope : Scope} : id ∉ held →
      scopes[id]? = some scope → ¬ (scope.bindings.get? name).isSome → scope.enclosing = none →
      Walk scopes name held id .missing
  | outward {held : List ScopeId} {id outer : ScopeId} {scope : Scope} {stop : WalkEnd} :
      id ∉ held → scopes[id]? = some scope → ¬ (scope.bindings.get? name).isSome →
      scope.enclosing = some outer → Walk scopes name (id :: held) outer stop →
      Walk scopes name held id stop

/-- What a search found, as the end of a walk. -/
def WalkEnd.of : Option ScopeId → WalkEnd
  | some home => found home
  | none => missing

/-- Every walk from the scope ends, in one way only, and that is where the
nearest binding of the name is. -/
def Walkable (scopes : Scopes) (id : ScopeId) : Prop :=
  ∀ name stop, Walk scopes name [] id stop ↔ stop = .of (scopes.resolve id name)

namespace WellFormed

variable {scopes : Scopes}

/-- Since a walk only comes to older scopes, it has none of them yet, and it
takes no more steps than there are scopes that are older. -/
theorem walk_iff (h : scopes.WellFormed) (name : String) : ∀ steps held id, id < steps →
    id < scopes.size → (∀ other ∈ held, id < other) → ∀ stop,
    Walk scopes name held id stop ↔ stop = .of (scopes.resolveWithin name steps id) := by
  intro steps
  induction steps with
  | zero => exact fun _ _ less => absurd less (Nat.not_lt_zero _)
  | succ steps ih =>
    intro held id less there above stop
    have free : id ∉ held := fun member => Nat.lt_irrefl _ (above id member)
    have here : scopes[id]? = some scopes[id] := Array.getElem?_eq_getElem there
    rw [resolveWithin_succ, local?_of_getElem? here, outer?_of_getElem? here]
    -- what the scope binds and what is around it leave a walk one way to go
    split
    case isTrue bound =>
      constructor
      · intro walk
        cases walk with
        | clash member => exact absurd member free
        | dangling _ none => exact absurd (here.symm.trans none) nofun
        | found => rfl
        | missing _ some unbound =>
          cases here.symm.trans some
          exact absurd bound unbound
        | outward _ some unbound =>
          cases here.symm.trans some
          exact absurd bound unbound
      · rintro rfl
        exact .found free here bound
    case isFalse unbound =>
      cases around : scopes[id].enclosing with
      | none =>
        constructor
        · intro walk
          cases walk with
          | clash member => exact absurd member free
          | dangling _ none => exact absurd (here.symm.trans none) nofun
          | found _ some bound =>
            cases here.symm.trans some
            exact absurd bound unbound
          | missing => rfl
          | outward _ some _ further =>
            cases here.symm.trans some
            exact absurd (around.symm.trans further) nofun
        · rintro rfl
          exact .missing free here unbound around
      | some outer =>
        have older : outer < id := h.outward ((outer?_of_getElem? here).trans around)
        have above' : ∀ other ∈ id :: held, outer < other := List.forall_mem_cons.2
          ⟨older, fun other member => Nat.lt_trans older (above other member)⟩
        have onward := ih (id :: held) outer (Nat.lt_of_lt_of_le older (Nat.le_of_lt_succ less))
          (Nat.lt_trans older there) above' stop
        rw [Option.bind_some]
        constructor
        · intro walk
          cases walk with
          | clash member => exact absurd member free
          | dangling _ none => exact absurd (here.symm.trans none) nofun
          | found _ some bound =>
            cases here.symm.trans some
            exact absurd bound unbound
          | missing _ some _ last =>
            cases here.symm.trans some
            exact absurd (around.symm.trans last) nofun
          | outward _ some _ further walk =>
            cases here.symm.trans some
            cases around.symm.trans further
            exact onward.1 walk
        · intro ends
          exact .outward free here unbound around (onward.2 ends)

theorem walkable (h : scopes.WellFormed) {id : ScopeId} (there : id < scopes.size) :
    scopes.Walkable id :=
  fun name => h.walk_iff name scopes.size [] id there there (List.forall_mem_nil _)

/-! ## Changes -/

theorem push (h : scopes.WellFormed) {scope : Scope}
    (ho : ∀ outer ∈ scope.enclosing, outer < scopes.size)
    (hb : ∀ name value, scope.bindings.get? name = some value →
      value.ClosesOver (· < scopes.size)) : WellFormed (scopes.push scope) where
  outward := by
    intro id outer link
    rw [outer?_push] at link
    split at link
    case isTrue last => exact last ▸ ho outer link
    case isFalse => exact h.outward link
  closures := by
    intro id name value bound
    rw [local?_push] at bound
    have closes : value.ClosesOver (· < scopes.size) := by
      split at bound
      · exact hb name value bound
      · exact h.closures bound
    refine closes.mono fun id less => ?_
    rw [Array.size_push]
    exact Nat.lt_trans less (Nat.lt_add_one _)

theorem define (h : scopes.WellFormed) {value : Value}
    (hv : value.ClosesOver (· < scopes.size)) (id : ScopeId) (name : String) :
    WellFormed (scopes.define id name value) where
  outward := by
    intro other outer link
    rw [outer?_define] at link
    exact h.outward link
  closures := by
    intro other key v bound
    rw [size_define]
    rcases eq_or_local?_of_local?_define bound with rfl | before
    · exact hv
    · exact h.closures before

end WellFormed

/-- The invariant as a discipline: code runs in scopes that are there, and no
scope ever goes. -/
def outward : Discipline where
  holds := WellFormed
  allows scopes id := id < scopes.size
  later _ a b := a.size ≤ b.size
  refl _ _ := Nat.le_refl _
  trans := Nat.le_trans
  widen h := h
  allows_later h hid := Nat.lt_of_lt_of_le hid h
  bound h := h.closures
  opens h ho hb := by
    refine ⟨h.push (fun outer link => ?_) hb, ?_⟩
    · cases link
      exact ho
    · rw [Array.size_push]
      exact Nat.lt_add_one _
  leave h := by
    rw [Array.size_push] at h
    exact Nat.le_of_succ_le h
  declares h _ hv := ⟨h.define hv _ _, Nat.le_of_eq (size_define ..).symm⟩
  rebinds h _ hv := ⟨h.define hv _ _, Nat.le_of_eq (size_define ..).symm⟩

end Scopes

namespace Machine

theorem wellFormed_initial (clock : Clock) : (initial clock).scopes.WellFormed where
  outward := by
    intro id outer link
    cases id <;> cases link
  closures := by
    intro id name value bound
    obtain ⟨f, rfl⟩ := native_of_initial bound
    trivial

theorem Reachable.wellFormed {m : Machine} (h : m.Reachable) : m.scopes.WellFormed := by
  obtain ⟨clock, leads⟩ := h
  induction leads with
  | refl => exact wellFormed_initial clock
  | tail _ step ih =>
    cases step with
    | scope there => exact ih.push there fun _ _ bound => absurd bound Bindings.get?_nil_ne
    | define there fits => exact ih.define fits _ _
    | assign there fits => exact (Run.ObeysAt.assign (d := Scopes.outward) ih there _ fits).holds
    | run there =>
      rw [← Told.interpretIn_run]
      exact (obeys_interpretIn Scopes.outward _ _ ih there _).holds
    | output => exact ih

end Machine

/-- In a reachable machine links lead outward and end, so that every walk for a
lookup or an assignment ends and never comes to a scope that it holds; and so it
is at every event that a run from there tells of, which does what evaluation
does. -/
theorem scopes_outward {m : Machine} (reached : m.Reachable) :
    m.scopes.WellFormed ∧ (∀ id < m.scopes.size, m.scopes.Walkable id) ∧
      ∀ frames fuel id s, id < m.scopes.size →
        (Told.interpretIn frames fuel id s).run = interpretIn frames fuel id s ∧
        ∀ e ∈ interpretEvents frames fuel id s m,
          e.machine.scopes.WellFormed ∧ e.machine.scopes.Walkable e.act.scope := by
  have h := reached.wellFormed
  refine ⟨h, fun id there => h.walkable there, fun frames fuel id s there =>
    ⟨Told.interpretIn_run frames fuel id s, fun e member => ?_⟩⟩
  obtain ⟨holds, allows⟩ := (obeys_interpretIn Scopes.outward frames fuel h there s).events e member
  exact ⟨holds, Scopes.WellFormed.walkable holds allows⟩

/-! ## A function in its own scope -/

namespace Roundabout

def body : List Stmt := [.expression (.assign (.ofName "x") (.identifier (.ofName "f")))]

/-- The text `{ var x; fun f() { x = f; } f(); }`. -/
def block : Stmt :=
  .block [.var (.ofName "x") (.literal .nil), .function (.ofName "f") [] body,
    .expression (.callOf "f" 1)]

/-- The machine on which the block has run: the scope of the block is the first
after the global one, and that of the call the second. -/
def machine : Machine :=
  Run.after (interpretIn (some maxFrames) 9 Machine.globals block) (.initial (.still 0))

theorem reachable_machine : machine.Reachable :=
  (Machine.reachable_initial _).tail (.run (Machine.globals_lt_size _))

end Roundabout

open Roundabout

/-- The scope of the block binds `x` to a function that closes over this scope;
a walk in search of `x` from the scope of the call ends there all the same. -/
theorem circle_walk :
    machine.Reachable ∧
    machine.scopes.local? 1 "x" = some (.function ⟨0, .ofName "f", [], body, 1⟩) ∧
    ∀ stop, machine.scopes.Walk "x" [] 2 stop ↔ stop = .found 1 := by
  obtain ⟨-, walkable, -⟩ := scopes_outward reachable_machine
  have home : machine.scopes.resolve 2 "x" = some 1 := by decide +kernel
  refine ⟨reachable_machine, by decide +kernel, fun stop => ?_⟩
  have walks := walkable 2 (by decide +kernel) "x" stop
  rwa [home] at walks

end Scriptlet
