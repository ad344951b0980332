/-
# Scopes as stores of nearest bindings

Scopes share what lies around them, so a change to one scope is seen from many:
from those on whose way outward it lies, unless a nearer scope hides it.  Here is
what is seen from each scope after a name was assigned or declared in another.
Nothing is asked of the scopes but that none lies around itself; they may have
been made in any order, and any number of ways may run into one.

A search counts its steps, and stops after as many as there are scopes.  Where no
scope lies around itself it comes to none of them twice, so that the count never
ends it (`Acyclic.resolve_iff`).

To assign and to declare both change what one scope binds one name to, and nothing
else (`Rebound`).  All that is seen afterwards follows from that: the new value from
where the way to that scope is clear (`Rebound.get?_clear`), and from elsewhere what was
seen before (`Rebound.get?_elsewhere`).
-/
import Scriptlet.Proofs.Scopes.Lexical
import Mathlib.Data.List.Nodup
import Mathlib.Data.List.Perm.Subperm

namespace Scriptlet

namespace Scopes

variable {scopes a b : Scopes} {id outer home other : ScopeId} {name key : String} {value : Value}

/-! ## No way leads back -/

/-- No scope lies around itself. -/
def Acyclic (scopes : Scopes) : Prop :=
  ∀ id, ¬ Relation.TransGen (fun inner outer => scopes.outer? inner = some outer) id id

theorem acyclic_of_rank (rank : ScopeId → Nat)
    (h : ∀ {id outer}, scopes.outer? id = some outer → rank outer < rank id) :
    scopes.Acyclic := by
  have falls : ∀ {id outer}, Relation.TransGen
      (fun inner outer => scopes.outer? inner = some outer) id outer → rank outer < rank id := by
    intro id outer way
    induction way with
    | single link => exact h link
    | tail _ link ih => exact Nat.lt_trans (h link) ih
  exact fun id cycle => Nat.lt_irrefl _ (falls cycle)

theorem WellFormed.acyclic (h : scopes.WellFormed) : scopes.Acyclic :=
  acyclic_of_rank (fun id => id) h.outward

/-! ## The search -/

/-- If any scope on the way outward binds the name, there is a nearest one. -/
theorem exists_nearest (around : scopes.Around id outer) (bound : scopes.Binds outer name) :
    ∃ home, scopes.Clear name id home ∧ scopes.Binds home name := by
  induction around using Relation.ReflTransGen.head_induction_on with
  | refl => exact ⟨outer, .here, bound⟩
  | @head id further link _ ih =>
    by_cases here : scopes.Binds id name
    · exact ⟨id, .here, here⟩
    · obtain ⟨home, clear, bound⟩ := ih
      exact ⟨home, .outward here link clear, bound⟩

namespace Acyclic

/-- The scopes that a search comes through are all different, and it takes a step
for each of them. -/
theorem visited (acyclic : scopes.Acyclic) (bound : scopes.Binds home name)
    (way : scopes.Clear name id home) :
    ∃ ids : List ScopeId, ids.Nodup ∧
      (∀ other ∈ ids, other < scopes.size ∧ scopes.Around id other) ∧
      ∀ more, scopes.resolveWithin name (more + ids.length) id = some home := by
  induction way with
  | @here home =>
    refine ⟨[home], List.nodup_singleton home, ?_, fun more => ?_⟩
    · exact List.forall_mem_singleton.2 ⟨bound.lt_size, .refl⟩
    · rw [List.length_singleton, resolveWithin_succ]
      exact if_pos bound
  | @outward id outer home free link _ ih =>
    obtain ⟨ids, different, there, found⟩ := ih bound
    refine ⟨id :: ids, List.nodup_cons.2 ⟨fun again => ?_, different⟩, ?_, fun more => ?_⟩
    · exact acyclic id (.head' link (there id again).2)
    · refine List.forall_mem_cons.2 ⟨⟨lt_size_of_outer? link, .refl⟩, fun other member => ?_⟩
      exact ⟨(there other member).1, (there other member).2.head link⟩
    · rw [List.length_cons, ← Nat.add_assoc, resolveWithin_succ, if_neg free, link]
      exact found more

theorem resolve_iff (acyclic : scopes.Acyclic) :
    scopes.resolve id name = some home ↔ scopes.Clear name id home ∧ scopes.Binds home name := by
  constructor
  · exact nearest_of_resolve
  · rintro ⟨way, bound⟩
    obtain ⟨ids, different, there, found⟩ := acyclic.visited bound way
    -- there are no more different scopes than there are scopes
    have few : ids.length ≤ scopes.size := by
      have known : ids ⊆ List.range scopes.size :=
        fun other member => List.mem_range.2 (there other member).1
      have length := (different.subperm known).length_le
      rwa [List.length_range] at length
    have run := found (scopes.size - ids.length)
    rwa [Nat.sub_add_cancel few] at run

theorem get?_eq_some_iff (acyclic : scopes.Acyclic) : scopes.get? id name = some value ↔
    ∃ home, scopes.Clear name id home ∧ scopes.local? home name = some value := by
  rw [get?, Option.bind_eq_some_iff]
  constructor
  · rintro ⟨home, found, here⟩
    exact ⟨home, (nearest_of_resolve found).1, here⟩
  · rintro ⟨home, way, here⟩
    exact ⟨home, acyclic.resolve_iff.2 ⟨way, Option.isSome_iff_exists.2 ⟨value, here⟩⟩, here⟩

theorem get?_eq_none_iff (acyclic : scopes.Acyclic) : scopes.get? id name = none ↔
    ∀ outer, scopes.Around id outer → ¬ scopes.Binds outer name := by
  constructor
  · intro none outer around bound
    obtain ⟨home, way, here⟩ := exists_nearest around bound
    obtain ⟨value, here⟩ := Option.isSome_iff_exists.1 here
    have some := acyclic.get?_eq_some_iff.2 ⟨home, way, here⟩
    rw [none] at some
    cases some
  · intro unbound
    refine Option.eq_none_iff_forall_ne_some.2 fun value some => ?_
    obtain ⟨home, way, here⟩ := acyclic.get?_eq_some_iff.1 some
    exact unbound home way.around (Option.isSome_iff_exists.2 ⟨value, here⟩)

end Acyclic

theorem isSome_resolve_iff : (scopes.resolve id name).isSome ↔ (scopes.get? id name).isSome := by
  rw [get?]
  cases found : scopes.resolve id name with
  | none => rfl
  | some home => exact iff_of_true rfl (bound_of_resolve found)

/-! ## One binding changes -/

/-- The scopes `b` are the scopes `a` after the scope `home` has bound the name to
the value; nothing else has changed. -/
structure Rebound (home : ScopeId) (name : String) (value : Value) (a b : Scopes) : Prop where
  size : b.size = a.size
  outer : ∀ id, b.outer? id = a.outer? id
  bound : ∀ id key, b.local? id key = if id = home ∧ key = name then some value else a.local? id key

theorem rebound_define (there : home < scopes.size) (name : String) (value : Value) :
    Rebound home name value scopes (scopes.define home name value) where
  size := size_define scopes home name value
  outer := outer?_define scopes home name value
  bound := by
    intro id key
    by_cases same : home = id
    · subst same
      rw [local?_define_self there]
      simp only [true_and, eq_comm]
    · rw [local?_define_ne same, if_neg fun both => same both.1.symm]

namespace Rebound

theorem acyclic (h : Rebound home name value a b) (acyclic : a.Acyclic) : b.Acyclic := by
  intro id cycle
  simp only [h.outer] at cycle
  exact acyclic id cycle

theorem bound_self (h : Rebound home name value a b) : b.local? home name = some value := by
  rw [h.bound, if_pos ⟨rfl, rfl⟩]

/-- A clear way to the scope stays clear, for it does not come through it before. -/
theorem clear (h : Rebound home name value a b) (acyclic : a.Acyclic)
    (way : a.Clear name id home) : b.Clear name id home := by
  induction way with
  | here => exact .here
  | @outward id outer home free link rest ih =>
    have before : ¬ (id = home ∧ name = name) := by
      rintro ⟨rfl, -⟩
      exact acyclic id (.head' link rest.around)
    refine .outward ?_ ((h.outer id).trans link) (ih h)
    rwa [h.bound, if_neg before]

theorem resolve (h : Rebound home name value a b)
    (elsewhere : ¬ (key = name ∧ a.Clear name other home)) :
    b.resolve other key = a.resolve other key := by
  unfold Scopes.resolve
  rw [h.size]
  generalize a.size = steps
  induction steps generalizing other with
  | zero => rfl
  | succ steps ih =>
    have here : ¬ (other = home ∧ key = name) := by
      rintro ⟨rfl, same⟩
      exact elsewhere ⟨same, .here⟩
    rw [resolveWithin_succ, resolveWithin_succ, h.bound, if_neg here, h.outer]
    split
    case isTrue => rfl
    case isFalse free =>
      cases link : a.outer? other with
      | none => rfl
      | some outer =>
        refine ih fun ⟨same, way⟩ => elsewhere ⟨same, ?_⟩
        exact .outward (same ▸ free) link way

theorem get?_clear (h : Rebound home name value a b) (acyclic : a.Acyclic)
    (way : a.Clear name other home) : b.get? other name = some value :=
  (h.acyclic acyclic).get?_eq_some_iff.2 ⟨home, h.clear acyclic way, h.bound_self⟩

theorem get?_elsewhere (h : Rebound home name value a b)
    (elsewhere : ¬ (key = name ∧ a.Clear name other home)) :
    b.get? other key = a.get? other key := by
  rw [Scopes.get?, Scopes.get?, h.resolve elsewhere]
  cases found : a.resolve other key with
  | none => rfl
  | some near =>
    have apart : ¬ (near = home ∧ key = name) := by
      rintro ⟨rfl, rfl⟩
      exact elsewhere ⟨rfl, (nearest_of_resolve found).1⟩
    rw [Option.bind_some, Option.bind_some, h.bound, if_neg apart]

/-- What is seen after a scope that binds the name has bound it anew: the scopes for
which it was the nearest to bind it see the new value, and there is no other change. -/
theorem get? (h : Rebound home name value a b) (acyclic : a.Acyclic) (bound : a.Binds home name)
    (other : ScopeId) (key : String) : b.get? other key =
      if key = name ∧ a.resolve other name = some home then some value else a.get? other key := by
  split
  case isTrue seen =>
    obtain ⟨rfl, found⟩ := seen
    exact h.get?_clear acyclic (nearest_of_resolve found).1
  case isFalse elsewhere =>
    refine h.get?_elsewhere fun ⟨same, way⟩ => elsewhere ⟨same, ?_⟩
    exact acyclic.resolve_iff.2 ⟨way, bound⟩

end Rebound

/-! ## Assigning and declaring -/

theorem assign?_eq_some {after : Scopes} (h : scopes.assign? id name value = some after) :
    ∃ home, scopes.resolve id name = some home ∧ Rebound home name value scopes after := by
  unfold assign? at h
  cases found : scopes.resolve id name with
  | none =>
    rw [found] at h
    cases h
  | some home =>
    rw [found] at h
    cases h
    exact ⟨home, rfl, rebound_define (Binds.lt_size (bound_of_resolve found)) name value⟩

theorem isSome_assign?_iff :
    (scopes.assign? id name value).isSome ↔ (scopes.get? id name).isSome := by
  rw [← isSome_resolve_iff, assign?]
  cases scopes.resolve id name <;> rfl

end Scopes

theorem Run.assign_eq (id : ScopeId) (name : Token) (value : Value) (m : Machine) :
    Run.assign id name value m =
      match m.scopes.assign? id name.lexeme value with
      | some after => .ok () { m with scopes := after }
      | none => .error (.failed (.undefinedVariable name.lexeme name.line)) m := by
  unfold Run.assign Scopes.assign?
  cases m.scopes.resolve id name.lexeme <;> rfl

open Scopes

/-- Scopes of which none lies around itself are stores of nearest bindings.

A lookup gives what the nearest scope on the way outward binds the name to, and fails
exactly if none on that way does.  An assignment succeeds exactly where a lookup does;
it changes that one binding, so that the scopes which resolve the name to the same
scope see the new value, and everything else stays as it was, as all does if it fails.
A declaration changes what the scope itself binds the name to, and hides what is bound
further out without a change to it. -/
theorem nearest_bindings {scopes : Scopes} (acyclic : scopes.Acyclic) (id : ScopeId)
    (name : Token) (value : Value) :
    (∀ v, scopes.get? id name.lexeme = some v ↔
      ∃ home, scopes.Clear name.lexeme id home ∧ scopes.local? home name.lexeme = some v) ∧
    (scopes.get? id name.lexeme = none ↔
      ∀ outer, scopes.Around id outer → ¬ scopes.Binds outer name.lexeme) ∧
    ((scopes.assign? id name.lexeme value).isSome ↔ (scopes.get? id name.lexeme).isSome) ∧
    (∀ after, scopes.assign? id name.lexeme value = some after →
      ∃ home, scopes.resolve id name.lexeme = some home ∧
        Rebound home name.lexeme value scopes after ∧
        (∀ other key, after.get? other key =
          if key = name.lexeme ∧ scopes.resolve other name.lexeme = some home then some value
          else scopes.get? other key) ∧
        ∀ m : Machine, m.scopes = scopes →
          Run.assign id name value m = .ok () { m with scopes := after }) ∧
    (scopes.assign? id name.lexeme value = none → ∀ m : Machine, m.scopes = scopes →
      Run.assign id name value m =
        .error (.failed (.undefinedVariable name.lexeme name.line)) m) ∧
    (id < scopes.size →
      Rebound id name.lexeme value scopes (scopes.define id name.lexeme value) ∧
      ∀ other key,
        (key = name.lexeme ∧ scopes.Clear name.lexeme other id →
          (scopes.define id name.lexeme value).get? other key = some value) ∧
        (¬ (key = name.lexeme ∧ scopes.Clear name.lexeme other id) →
          (scopes.define id name.lexeme value).get? other key = scopes.get? other key)) := by
  refine ⟨fun v => acyclic.get?_eq_some_iff, acyclic.get?_eq_none_iff, isSome_assign?_iff,
    fun after assigned => ?_, fun missing m same => ?_, fun there => ?_⟩
  · obtain ⟨home, found, rebound⟩ := assign?_eq_some assigned
    refine ⟨home, found, rebound, rebound.get? acyclic (bound_of_resolve found), fun m same => ?_⟩
    subst same
    rw [Run.assign_eq, assigned]
  · subst same
    rw [Run.assign_eq, missing]
  · have rebound := rebound_define there name.lexeme value
    refine ⟨rebound, fun other key => ⟨?_, rebound.get?_elsewhere⟩⟩
    rintro ⟨rfl, way⟩
    exact rebound.get?_clear acyclic way

/-! ## Ways that run into one -/

namespace Shared

/-- Scopes 0 and 1 lie in scope 2, and scope 3 in scope 1, which hides a name. -/
def scopes : Scopes :=
  #[⟨[], some 2⟩, ⟨[("x", .string "near")], some 2⟩, ⟨[("x", .string "far")], none⟩, ⟨[], some 1⟩]

/-- How far in the scopes lie. -/
def depth : ScopeId → Nat
  | 2 => 0
  | 3 => 2
  | _ => 1

theorem acyclic_scopes : scopes.Acyclic := by
  have all : ∀ id < 4, ∀ outer ∈ scopes.outer? id, depth outer < depth id := by decide
  exact acyclic_of_rank depth fun link => all _ (lt_size_of_outer? link) _ link

end Shared

/-- A new value for `x`, assigned from scope 0, is seen from scope 2 as well, but not from
scope 3, from where the value in scope 1 is nearer.  Declared in scope 0, it is seen from
there alone. -/
theorem shared_way :
    Shared.scopes.Acyclic ∧ 0 < Shared.scopes.size ∧
    (∃ after, Shared.scopes.assign? 0 "x" .nil = some after ∧ after.get? 0 "x" = some .nil ∧
      after.get? 2 "x" = some .nil ∧ after.get? 3 "x" = some (.string "near")) ∧
    (Shared.scopes.define 0 "x" .nil).get? 0 "x" = some .nil ∧
    (Shared.scopes.define 0 "x" .nil).get? 2 "x" = some (.string "far") := by
  obtain ⟨-, -, -, assigned, -, declared⟩ :=
    nearest_bindings Shared.acyclic_scopes 0 (.ofName "x") .nil
  obtain ⟨home, found, -, seen, -⟩ := assigned _ rfl
  have far : home = 2 := Option.some.inj (found.symm.trans rfl)
  subst far
  obtain ⟨-, sees⟩ := declared (by decide)
  have hidden : ¬ Shared.scopes.Clear "x" 2 0 := fun way => by
    cases way with
    | outward _ link => cases link
  refine ⟨Shared.acyclic_scopes, by decide, ⟨_, rfl, ?_, ?_, ?_⟩, ?_, ?_⟩
  · exact (seen 0 "x").trans (if_pos ⟨rfl, rfl⟩)
  · exact (seen 2 "x").trans (if_pos ⟨rfl, rfl⟩)
  · exact (seen 3 "x").trans (if_neg (by decide))
  · exact (sees 0 "x").1 ⟨rfl, .here⟩
  · exact (sees 2 "x").2 fun both => hidden both.2

end Scriptlet
