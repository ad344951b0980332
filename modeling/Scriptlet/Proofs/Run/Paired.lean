/-
# Machines that stand for each other

Two machines on which programs of different layout have run hold different
functions, so they are never equal; nor need a scope or a function have the same
number in both.  A `Pairing` says which scopes and which functions of one stand
for which of the other.  Two values are twins if they are equal, or functions
that stand for each other, with bodies that are the same when bare; two machines
are twins if paired scopes bind the same names to twins and lie in scopes that
are paired.

Nothing stands for two, so functions are equal in the one machine when they are
in the other.  A pairing grows in the course of two runs, by the scopes and
functions that both make; what was paired stays paired.
-/
import Scriptlet.Proofs.Run.Relined
import Scriptlet.Proofs.Scopes.Outward
import Scriptlet.Proofs.Tree.Bare
import Mathlib.Data.List.Forall2
import Mathlib.Logic.Relator
import Mathlib.Order.Defs.PartialOrder

namespace Scriptlet

section

variable {α β : Type} {R S : α → β → Prop} {o : Option α} {o' : Option β}

theorem optionRel_imp (imp : ∀ a b, R a b → S a b) (h : Option.Rel R o o') : Option.Rel S o o' := by
  cases h with
  | some related => exact .some (imp _ _ related)
  | none => exact .none

theorem optionRel_flip (h : Option.Rel R o o') : Option.Rel (fun b a => R a b) o' o := by
  cases h with
  | some related => exact .some related
  | none => exact .none

end

/-! ## Pairings -/

/-- The pairs, and one more. -/
def alsoPaired (R : Nat → Nat → Prop) (i i' : Nat) : Nat → Nat → Prop :=
  fun j j' => R j j' ∨ j = i ∧ j' = i'

theorem biUnique_below (bound : Nat) : Relator.BiUnique fun i i' : Nat => i = i' ∧ i < bound :=
  ⟨fun _ _ _ h h' => h.1.trans h'.1.symm, fun _ _ _ h h' => h.1.symm.trans h'.1⟩

/-- A pair of which both are new makes nothing stand for two. -/
theorem alsoPaired_biUnique {R : Nat → Nat → Prop} {i i' : Nat} (unique : Relator.BiUnique R)
    (new : ∀ {j j'}, R j j' → j < i ∧ j' < i') : Relator.BiUnique (alsoPaired R i i') := by
  constructor
  · rintro a b c (ac | ⟨rfl, rfl⟩) (bc | ⟨rfl, same⟩)
    · exact unique.1 ac bc
    · exact absurd (new ac).2 (same ▸ Nat.lt_irrefl _)
    · exact absurd (new bc).2 (Nat.lt_irrefl _)
    · rfl
  · rintro a b c (ab | ⟨rfl, rfl⟩) (ac | ⟨same, rfl⟩)
    · exact unique.2 ab ac
    · exact absurd (new ab).1 (same ▸ Nat.lt_irrefl _)
    · exact absurd (new ac).1 (Nat.lt_irrefl _)
    · rfl

/-- Which scopes and which functions of one machine stand for which of
another. -/
structure Pairing where
  scopes : ScopeId → ScopeId → Prop
  /-- The functions, by their identities. -/
  functions : Nat → Nat → Prop
  scopes_unique : Relator.BiUnique scopes
  functions_unique : Relator.BiUnique functions

namespace Pairing

/-- The greater pairing has all pairs of the smaller one. -/
instance : Preorder Pairing where
  le W W' := (∀ id id', W.scopes id id' → W'.scopes id id') ∧
    ∀ i i', W.functions i i' → W'.functions i i'
  le_refl _ := ⟨fun _ _ h => h, fun _ _ h => h⟩
  le_trans _ _ _ h h' := ⟨fun _ _ p => h'.1 _ _ (h.1 _ _ p), fun _ _ p => h'.2 _ _ (h.2 _ _ p)⟩

variable {W W' : Pairing}

theorem scopes_mono (le : W ≤ W') {id id' : ScopeId} (paired : W.scopes id id') :
    W'.scopes id id' :=
  le.1 id id' paired

theorem functions_mono (le : W ≤ W') {i i' : Nat} (paired : W.functions i i') :
    W'.functions i i' :=
  le.2 i i' paired

/-- The pairing seen from the other machine. -/
def swap (W : Pairing) : Pairing where
  scopes id' id := W.scopes id id'
  functions i' i := W.functions i i'
  scopes_unique :=
    ⟨fun _ _ _ h h' => W.scopes_unique.2 h h', fun _ _ _ h h' => W.scopes_unique.1 h h'⟩
  functions_unique :=
    ⟨fun _ _ _ h h' => W.functions_unique.2 h h', fun _ _ _ h h' => W.functions_unique.1 h h'⟩

end Pairing

/-! ## Values -/

/-- The functions stand for each other and have the same text but for layout. -/
structure Closure.Twin (W : Pairing) (f f' : Closure) : Prop where
  identity : W.functions f.identity f'.identity
  name : f.name.unlined = f'.name.unlined
  params : f.params.map Token.unlined = f'.params.map Token.unlined
  body : f.body.map Stmt.bare = f'.body.map Stmt.bare
  scope : W.scopes f.scope f'.scope

namespace Closure.Twin

variable {W W' : Pairing} {f f' : Closure}

theorem mono (h : f.Twin W f') (le : W ≤ W') : f.Twin W' f' where
  identity := Pairing.functions_mono le h.identity
  name := h.name
  params := h.params
  body := h.body
  scope := Pairing.scopes_mono le h.scope

theorem swap (h : f.Twin W f') : f'.Twin W.swap f where
  identity := h.identity
  name := h.name.symm
  params := h.params.symm
  body := h.body.symm
  scope := h.scope

theorem lexemes (h : f.Twin W f') : f.params.map (·.lexeme) = f'.params.map (·.lexeme) := by
  have forgotten : ∀ ts : List Token,
      ts.map (·.lexeme) = (ts.map Token.unlined).map (·.lexeme) := by
    intro ts
    rw [List.map_map]
    rfl
  rw [forgotten, h.params, ← forgotten]

theorem arity (h : f.Twin W f') : f.arity = f'.arity := by
  have lengths := congrArg List.length h.params
  rwa [List.length_map, List.length_map] at lengths

end Closure.Twin

inductive Value.Twin (W : Pairing) : Value → Value → Prop
  | nil : Twin W .nil .nil
  | boolean (value : Bool) : Twin W (.boolean value) (.boolean value)
  | number (value : Float) : Twin W (.number value) (.number value)
  | string (value : String) : Twin W (.string value) (.string value)
  | function {f f' : Closure} : f.Twin W f' → Twin W (.function f) (.function f')
  | native (f : Native) : Twin W (.native f) (.native f)

inductive Flow.Twin (W : Pairing) : Flow → Flow → Prop
  | normal : Twin W .normal .normal
  | returned {value value' : Value} : value.Twin W value' →
      Twin W (.returned value) (.returned value')

/-- The error, on no line in particular. -/
def RuntimeError.unlined (e : RuntimeError) : RuntimeError := e.relined fun _ => 0

/-- The results are values that are related, or the same error up to its line. -/
inductive UpToLine {α β : Type} (R : α → β → Prop) :
    Except RuntimeError α → Except RuntimeError β → Prop
  | ok {a : α} {b : β} : R a b → UpToLine R (.ok a) (.ok b)
  | error {e e' : RuntimeError} : e.unlined = e'.unlined → UpToLine R (.error e) (.error e')

/-- The results are values that are related, or the same error, and the state is
the same after both. -/
inductive InStep {ε σ α β : Type} (R : α → β → Prop) :
    EStateM.Result ε σ α → EStateM.Result ε σ β → Prop
  | ok {a : α} {b : β} {s : σ} : R a b → InStep R (.ok a s) (.ok b s)
  | error {e : ε} {s : σ} : InStep R (.error e s) (.error e s)

theorem Flow.Twin.value {W : Pairing} {flow flow' : Flow} (h : flow.Twin W flow') :
    flow.value.Twin W flow'.value := by
  cases h with
  | normal => exact .nil
  | returned h => exact h

namespace Value

theorem twin_ofLiteral (W : Pairing) (literal : Literal) :
    (ofLiteral literal).Twin W (ofLiteral literal) := by
  cases literal with
  | nil => exact .nil
  | boolean value => exact .boolean value
  | number value => exact .number value
  | string value => exact .string value

namespace Twin

variable {W W' : Pairing} {value value' left left' right right' : Value}
  {operator operator' : Token}

theorem mono (h : value.Twin W value') (le : W ≤ W') : value.Twin W' value' := by
  cases h with
  | function h => exact .function (h.mono le)
  | nil => exact .nil
  | boolean value => exact .boolean value
  | number value => exact .number value
  | string value => exact .string value
  | native f => exact .native f

theorem swap (h : value.Twin W value') : value'.Twin W.swap value := by
  cases h with
  | function h => exact .function h.swap
  | nil => exact .nil
  | boolean value => exact .boolean value
  | number value => exact .number value
  | string value => exact .string value
  | native f => exact .native f

theorem isTruthy (h : value.Twin W value') : value.isTruthy = value'.isTruthy := by
  cases h <;> rfl

theorem text (h : value.Twin W value') : value.text = value'.text := by
  cases h with
  | function h =>
    exact congrArg (fun name => "<fn " ++ name ++ ">") (Token.lexeme_eq h.name)
  | _ => rfl

/-- Functions are told apart by their identities, and each stands for one only. -/
theorem equals (hl : left.Twin W left') (hr : right.Twin W right') :
    left.equals right = left'.equals right' := by
  cases hl with
  | function f =>
    cases hr with
    | function g =>
      refine Bool.eq_iff_iff.2 ?_
      simp only [Value.equals, beq_iff_eq]
      constructor
      · intro same
        exact W.functions_unique.2 f.identity (same ▸ g.identity)
      · intro same
        exact W.functions_unique.1 f.identity (same ▸ g.identity)
    | _ => rfl
  | _ => cases hr <;> rfl

theorem onNumbers (hl : left.Twin W left') (hr : right.Twin W right') {line line' : Nat}
    {operation operation' : Float → Float → Except RuntimeError Value}
    (h : ∀ a b, UpToLine (Value.Twin W) (operation a b) (operation' a b)) :
    UpToLine (Value.Twin W) (left.onNumbers line operation right)
      (left'.onNumbers line' operation' right') := by
  cases hl with
  | number a =>
    cases hr with
    | number b => exact h a b
    | _ => exact .error rfl
  | _ => exact .error rfl

theorem plus (hl : left.Twin W left') (hr : right.Twin W right') (line line' : Nat) :
    UpToLine (Value.Twin W) (left.plus line right) (left'.plus line' right') := by
  cases hl with
  | number a =>
    cases hr with
    | number b => exact .ok (.number (a + b))
    | _ => exact .error rfl
  | string a =>
    cases hr with
    | string b => exact .ok (.string (a ++ b))
    | _ => exact .error rfl
  | _ => exact .error rfl

theorem binary (hl : left.Twin W left') (hr : right.Twin W right')
    (same : operator.unlined = operator'.unlined) :
    UpToLine (Value.Twin W) (left.binary operator right) (left'.binary operator' right') := by
  unfold Value.binary
  rw [Token.kind_eq same, Token.lexeme_eq same, hl.equals hr]
  split
  case h_1 => exact hl.plus hr _ _
  case h_4 =>
    refine hl.onNumbers hr fun a b => ?_
    split
    · exact .error rfl
    · exact .ok (.number _)
  case h_9 => exact .ok (.boolean _)
  case h_10 => exact .ok (.boolean _)
  case h_11 => exact .error rfl
  all_goals exact hl.onNumbers hr fun _ _ => .ok (by first | exact .number _ | exact .boolean _)

theorem unary (h : value.Twin W value') (same : operator.unlined = operator'.unlined) :
    UpToLine (Value.Twin W) (value.unary operator) (value'.unary operator') := by
  unfold Value.unary
  rw [Token.kind_eq same, Token.lexeme_eq same, h.isTruthy]
  cases operator'.kind with
  | bang => exact .ok (.boolean _)
  | minus => cases h <;> first | exact .ok (.number _) | exact .error rfl
  | _ => exact .error rfl

theorem decides (h : value.Twin W value') (same : operator.unlined = operator'.unlined) :
    UpToLine Eq (value.decides operator) (value'.decides operator') := by
  unfold Value.decides
  rw [Token.kind_eq same, Token.lexeme_eq same, h.isTruthy]
  split
  · exact .ok rfl
  · exact .ok rfl
  · exact .error rfl

end Twin

end Value

/-- Twins as arguments give twins, or the same fault. -/
theorem Native.apply_twin {W : Pairing} {values values' : List Value}
    (h : List.Forall₂ (Value.Twin W) values values') (f : Native) (clock : Clock) :
    InStep (Value.Twin W) (f.apply values clock) (f.apply values' clock) := by
  cases f with
  | clock => exact .ok (.number _)
  | squareRoot =>
    cases h with
    | nil => exact .error
    | cons first rest =>
      cases rest with
      | nil => cases first <;> first | exact .ok (.number _) | exact .error
      | cons => cases first <;> exact .error
  | textOf =>
    cases h with
    | nil => exact .error
    | cons first rest =>
      cases rest with
      | nil =>
        simp only [apply, first.text]
        exact .ok (.string _)
      | cons => exact .error

/-! ## Bindings -/

namespace Bindings

section

variable {R : Value → Value → Prop} {bindings bindings' : Bindings}

theorem rel_insert (h : ∀ name, Option.Rel R (bindings.get? name) (bindings'.get? name))
    (name : String) {value value' : Value} (hv : R value value') (other : String) :
    Option.Rel R ((bindings.insert name value).get? other)
      ((bindings'.insert name value').get? other) := by
  rw [get?_insert, get?_insert]
  split
  · exact .some hv
  · exact h other

theorem rel_ofLists (names : List String) {values values' : List Value}
    (h : List.Forall₂ R values values') (name : String) :
    Option.Rel R ((ofLists names values).get? name) ((ofLists names values').get? name) := by
  suffices ∀ {bindings bindings' : Bindings},
      (∀ name, Option.Rel R (bindings.get? name) (bindings'.get? name)) → ∀ name, Option.Rel R
        (((names.zip values).foldl (fun bindings pair => bindings.insert pair.1 pair.2)
          bindings).get? name)
        (((names.zip values').foldl (fun bindings pair => bindings.insert pair.1 pair.2)
          bindings').get? name) from
    this (fun _ => .none) name
  induction h generalizing names with
  | nil =>
    intro bindings bindings' h
    cases names <;> exact h
  | cons first _ ih =>
    intro bindings bindings' h
    cases names with
    | nil => exact h
    | cons name names => exact ih names (rel_insert h name first)

end

/-- The same names are bound, to twins. -/
def Twin (W : Pairing) (bindings bindings' : Bindings) : Prop :=
  ∀ name, Option.Rel (Value.Twin W) (bindings.get? name) (bindings'.get? name)

theorem twin_ofLists {W : Pairing} (names : List String) {values values' : List Value}
    (h : List.Forall₂ (Value.Twin W) values values') :
    (ofLists names values).Twin W (ofLists names values') :=
  rel_ofLists names h

end Bindings

/-! ## Machines -/

/-- A new scope inside one that is there lies further in than that one. -/
theorem Scopes.outward_push {scopes : Scopes} {bindings : Bindings} {around : ScopeId}
    (h : ∀ {id outer}, scopes.outer? id = some outer → outer < id) (there : around < scopes.size)
    {id outer : ScopeId} (link : outer? (scopes.push ⟨bindings, some around⟩) id = some outer) :
    outer < id := by
  rw [outer?_push] at link
  split at link
  case isTrue last =>
    cases link
    exact last ▸ there
  case isFalse => exact h link

/-- What stands for each other is alike, and all else is equal.  A function or a
scope that is not in the pairing may be in one machine only. -/
structure Machine.Twin (W : Pairing) (m m' : Machine) : Prop where
  bound : ∀ {id id'}, W.scopes id id' → ∀ name,
    Option.Rel (Value.Twin W) (m.scopes.local? id name) (m'.scopes.local? id' name)
  outer : ∀ {id id'}, W.scopes id id' →
    Option.Rel W.scopes (m.scopes.outer? id) (m'.scopes.outer? id')
  scopes : ∀ {id id'}, W.scopes id id' → id < m.scopes.size ∧ id' < m'.scopes.size
  functions : ∀ {i i'}, W.functions i i' → i < m.functions ∧ i' < m'.functions
  /-- Links lead to older scopes, on both sides. -/
  outward : ∀ {id outer}, m.scopes.outer? id = some outer → outer < id
  outward' : ∀ {id outer}, m'.scopes.outer? id = some outer → outer < id
  callDepth : m.callDepth = m'.callDepth
  sink : m.sink = m'.sink
  clock : m.clock = m'.clock

namespace Machine.Twin

variable {W : Pairing} {m m' : Machine} {id id' : ScopeId}

theorem swap (h : m.Twin W m') : m'.Twin W.swap m where
  bound paired name :=
    optionRel_imp (fun _ _ => Value.Twin.swap) (optionRel_flip (h.bound paired name))
  outer paired := optionRel_flip (h.outer paired)
  scopes paired := (h.scopes paired).symm
  functions paired := (h.functions paired).symm
  outward := h.outward'
  outward' := h.outward
  callDepth := h.callDepth.symm
  sink := h.sink.symm
  clock := h.clock.symm

theorem withCallDepth (h : m.Twin W m') (depth : Nat) :
    Machine.Twin W { m with callDepth := depth } { m' with callDepth := depth } :=
  { h with callDepth := rfl }

theorem withSink (h : m.Twin W m') (sink : Sink) :
    Machine.Twin W { m with sink := sink } { m' with sink := sink } :=
  { h with sink := rfl }

theorem withClock (h : m.Twin W m') (clock : Clock) :
    Machine.Twin W { m with clock := clock } { m' with clock := clock } :=
  { h with clock := rfl }

/-! ### The nearest binding -/

/-- The two searches go through paired scopes.  They may count different steps,
but in neither machine does a search run out of them. -/
theorem resolve (h : m.Twin W m') (paired : W.scopes id id') (name : String) :
    Option.Rel W.scopes (m.scopes.resolve id name) (m'.scopes.resolve id' name) := by
  suffices ∀ steps steps' id id', id < steps → id' < steps' → W.scopes id id' →
      Option.Rel W.scopes (m.scopes.resolveWithin name steps id)
        (m'.scopes.resolveWithin name steps' id') from
    this _ _ _ _ (h.scopes paired).1 (h.scopes paired).2 paired
  intro steps
  induction steps with
  | zero => exact fun _ _ _ less => absurd less (Nat.not_lt_zero _)
  | succ steps ih =>
    intro steps' id id' less less' paired
    obtain ⟨steps', rfl⟩ := Nat.exists_eq_add_one_of_ne_zero (Nat.ne_zero_of_lt less')
    rw [Scopes.resolveWithin_succ, Scopes.resolveWithin_succ]
    have here := h.bound paired name
    have links := h.outer paired
    generalize m.scopes.local? id name = value, m'.scopes.local? id' name = value' at here ⊢
    cases here with
    | some => exact .some paired
    | none =>
      generalize out : m.scopes.outer? id = link, out' : m'.scopes.outer? id' = link' at links ⊢
      cases links with
      | none => exact .none
      | some further =>
        have older := Nat.lt_of_lt_of_le (h.outward out) (Nat.le_of_lt_succ less)
        have older' := Nat.lt_of_lt_of_le (h.outward' out') (Nat.le_of_lt_succ less')
        exact ih steps' _ _ older older' further

theorem get? (h : m.Twin W m') (paired : W.scopes id id') (name : String) :
    Option.Rel (Value.Twin W) (m.scopes.get? id name) (m'.scopes.get? id' name) := by
  have homes := h.resolve paired name
  unfold Scopes.get?
  generalize m.scopes.resolve id name = home, m'.scopes.resolve id' name = home' at homes ⊢
  cases homes with
  | none => exact .none
  | some paired => exact h.bound paired name

/-! ### Changes -/

theorem define (h : m.Twin W m') (paired : W.scopes id id') (name : String)
    {value value' : Value} (hv : value.Twin W value') :
    (m.define id name value).Twin W (m'.define id' name value') where
  bound := by
    intro other other' others key
    show Option.Rel _ ((m.scopes.define id name value).local? other key)
      ((m'.scopes.define id' name value').local? other' key)
    by_cases same : id = other
    · subst same
      cases W.scopes_unique.2 paired others
      rw [Scopes.local?_define_self (h.scopes paired).1,
        Scopes.local?_define_self (h.scopes paired).2]
      split
      · exact .some hv
      · exact h.bound paired key
    · have differ : id' ≠ other' := by
        rintro rfl
        exact same (W.scopes_unique.1 paired others)
      rw [Scopes.local?_define_ne same, Scopes.local?_define_ne differ]
      exact h.bound others key
  outer := by
    intro other other' others
    have links := h.outer others
    rwa [← Scopes.outer?_define m.scopes id name value,
      ← Scopes.outer?_define m'.scopes id' name value'] at links
  scopes := by
    intro other other' others
    have there := h.scopes others
    rwa [← Scopes.size_define m.scopes id name value,
      ← Scopes.size_define m'.scopes id' name value'] at there
  functions := h.functions
  outward := by
    intro other outer link
    exact h.outward ((Scopes.outer?_define ..).symm.trans link)
  outward' := by
    intro other outer link
    exact h.outward' ((Scopes.outer?_define ..).symm.trans link)
  callDepth := h.callDepth
  sink := h.sink
  clock := h.clock

/-- Two new scopes stand for each other. -/
theorem addScope (h : m.Twin W m') {outer outer' : ScopeId} (paired : W.scopes outer outer')
    {bindings bindings' : Bindings} (hb : bindings.Twin W bindings') :
    ∃ W', W ≤ W' ∧ W'.scopes m.scopes.size m'.scopes.size ∧
      (m.addScope ⟨bindings, some outer⟩).2.Twin W' (m'.addScope ⟨bindings', some outer'⟩).2 := by
  let W' : Pairing :=
    { W with
      scopes := alsoPaired W.scopes m.scopes.size m'.scopes.size
      scopes_unique := alsoPaired_biUnique W.scopes_unique h.scopes }
  have le : W ≤ W' := ⟨fun _ _ => .inl, fun _ _ p => p⟩
  refine ⟨W', le, .inr ⟨rfl, rfl⟩, ?_⟩
  refine {
    bound := ?bound
    outer := ?outer
    scopes := ?scopes
    functions := h.functions
    outward := ?outward
    outward' := ?outward'
    callDepth := h.callDepth
    sink := h.sink
    clock := h.clock }
  case bound =>
    intro id id' paired name
    show Option.Rel _ (Scopes.local? (m.scopes.push _) id name)
      (Scopes.local? (m'.scopes.push _) id' name)
    rw [Scopes.local?_push, Scopes.local?_push]
    rcases paired with before | ⟨rfl, rfl⟩
    · obtain ⟨less, less'⟩ := h.scopes before
      rw [if_neg (Nat.ne_of_lt less), if_neg (Nat.ne_of_lt less')]
      exact optionRel_imp (fun _ _ twins => twins.mono le) (h.bound before name)
    · rw [if_pos rfl, if_pos rfl]
      exact optionRel_imp (fun _ _ twins => twins.mono le) (hb name)
  case outer =>
    intro id id' paired'
    show Option.Rel _ (Scopes.outer? (m.scopes.push _) id) (Scopes.outer? (m'.scopes.push _) id')
    rw [Scopes.outer?_push, Scopes.outer?_push]
    rcases paired' with before | ⟨rfl, rfl⟩
    · obtain ⟨less, less'⟩ := h.scopes before
      rw [if_neg (Nat.ne_of_lt less), if_neg (Nat.ne_of_lt less')]
      exact optionRel_imp (fun _ _ => .inl) (h.outer before)
    · rw [if_pos rfl, if_pos rfl]
      exact .some (.inl paired)
  case scopes =>
    intro id id' paired'
    show id < (m.scopes.push _).size ∧ id' < (m'.scopes.push _).size
    rw [Array.size_push, Array.size_push]
    rcases paired' with before | ⟨rfl, rfl⟩
    · obtain ⟨less, less'⟩ := h.scopes before
      exact ⟨Nat.lt_succ_of_lt less, Nat.lt_succ_of_lt less'⟩
    · exact ⟨Nat.lt_add_one _, Nat.lt_add_one _⟩
  case outward => exact Scopes.outward_push h.outward (h.scopes paired).1
  case outward' => exact Scopes.outward_push h.outward' (h.scopes paired).2

/-- Two new functions stand for each other. -/
theorem newFunction (h : m.Twin W m') {name name' : Token} {params params' : List Token}
    {body body' : List Stmt} (sameName : name.unlined = name'.unlined)
    (sameParams : params.map Token.unlined = params'.map Token.unlined)
    (sameBody : body.map Stmt.bare = body'.map Stmt.bare) (paired : W.scopes id id') :
    ∃ W', W ≤ W' ∧ Closure.Twin W' ⟨m.functions, name, params, body, id⟩
        ⟨m'.functions, name', params', body', id'⟩ ∧
      Machine.Twin W' { m with functions := m.functions + 1 }
        { m' with functions := m'.functions + 1 } := by
  let W' : Pairing :=
    { W with
      functions := alsoPaired W.functions m.functions m'.functions
      functions_unique := alsoPaired_biUnique W.functions_unique h.functions }
  have le : W ≤ W' := ⟨fun _ _ p => p, fun _ _ => .inl⟩
  refine ⟨W', le, ⟨.inr ⟨rfl, rfl⟩, sameName, sameParams, sameBody, paired⟩, ?_⟩
  refine { h with bound := ?bound, functions := ?functions }
  case bound =>
    intro id id' paired name
    exact optionRel_imp (fun _ _ twins => twins.mono le) (h.bound paired name)
  case functions =>
    rintro i i' (before | ⟨rfl, rfl⟩)
    · obtain ⟨less, less'⟩ := h.functions before
      exact ⟨Nat.lt_succ_of_lt less, Nat.lt_succ_of_lt less'⟩
    · exact ⟨Nat.lt_add_one _, Nat.lt_add_one _⟩

end Machine.Twin

/-! ### A machine by itself -/

/-- Each of the first scopes and functions is paired with itself. -/
def Pairing.diagonal (scopes functions : Nat) : Pairing where
  scopes id id' := id = id' ∧ id < scopes
  functions i i' := i = i' ∧ i < functions
  scopes_unique := biUnique_below scopes
  functions_unique := biUnique_below functions

/-- A machine whose links lead outward is its own twin, if it has made all of its
functions itself. -/
theorem Machine.twin_self {m : Machine} (h : m.scopes.WellFormed)
    (made : ∀ {id name f}, m.scopes.local? id name = some (.function f) →
      f.identity < m.functions) : m.Twin (.diagonal m.scopes.size m.functions) m where
  bound := by
    rintro id _ ⟨rfl, -⟩ name
    cases bound : m.scopes.local? id name with
    | none => exact .none
    | some value =>
      refine .some ?_
      cases value with
      | function f =>
        exact .function ⟨⟨rfl, made bound⟩, rfl, rfl, rfl, rfl, h.closures bound⟩
      | nil => exact .nil
      | boolean value => exact .boolean value
      | number value => exact .number value
      | string value => exact .string value
      | native f => exact .native f
  outer := by
    rintro id _ ⟨rfl, there⟩
    cases link : m.scopes.outer? id with
    | none => exact .none
    | some outer => exact .some ⟨rfl, Nat.lt_trans (h.outward link) there⟩
  scopes := by
    rintro id _ ⟨rfl, there⟩
    exact ⟨there, there⟩
  functions := by
    rintro i _ ⟨rfl, there⟩
    exact ⟨there, there⟩
  outward := h.outward
  outward' := h.outward
  callDepth := rfl
  sink := rfl
  clock := rfl

theorem Machine.twin_initial (clock : Clock) :
    (initial clock).Twin (.diagonal (initial clock).scopes.size 0) (initial clock) := by
  refine twin_self (wellFormed_initial clock) fun bound => ?_
  obtain ⟨f, same⟩ := native_of_initial bound
  cases same

end Scriptlet
