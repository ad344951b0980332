/-
# Blank scopes

A scope that binds nothing itself is as good as the one around it: whoever looks for a
name passes through it, and what a call declares is declared further in.  So nothing
should depend on how many such scopes there are, and none does as long as no statement
runs directly in one of them that declares a name.

Two machines are compared of which the second has more blank scopes.  The scopes that are
in both are paired (`Padding.home`), and nothing stands for two.  A scope of the second
that is in both, or a blank one that leads to it through blank ones, shows what its
partner in the first one shows (`Padding.shown`).  All else is equal but for the numbers
of scopes: functions are the same functions, lines and all, only that they close over
scopes that show the same.
-/
import Scriptlet.Proofs.Run.Paired

namespace Scriptlet

/-! ## Values without their scopes -/

namespace Value

/-- The value, with no scope in particular for a function to close over. -/
def unscoped : Value → Value
  | function f => function { f with scope := 0 }
  | value => value

theorem isTruthy_unscoped (v : Value) : v.unscoped.isTruthy = v.isTruthy := by
  cases v <;> rfl

theorem text_unscoped (v : Value) : v.unscoped.text = v.text := by
  cases v <;> rfl

theorem plus_unscoped (line : Nat) (left right : Value) :
    plus line left.unscoped right.unscoped = plus line left right := by
  cases left <;> cases right <;> rfl

theorem onNumbers_unscoped (line : Nat) (operation : Float → Float → Except RuntimeError Value)
    (left right : Value) :
    onNumbers line operation left.unscoped right.unscoped =
      onNumbers line operation left right := by
  cases left <;> cases right <;> rfl

theorem equals_unscoped (left right : Value) :
    left.unscoped.equals right.unscoped = left.equals right := by
  cases left <;> cases right <;> rfl

theorem binary_unscoped (operator : Token) (left right : Value) :
    left.unscoped.binary operator right.unscoped = left.binary operator right := by
  simp only [binary, plus_unscoped, onNumbers_unscoped, equals_unscoped]

theorem unary_unscoped (operator : Token) (v : Value) :
    v.unscoped.unary operator = v.unary operator := by
  unfold unary
  rw [isTruthy_unscoped]
  cases operator.kind with
  | minus => cases v <;> rfl
  | _ => rfl

theorem decides_unscoped (operator : Token) (v : Value) :
    v.unscoped.decides operator = v.decides operator := by
  unfold decides
  rw [isTruthy_unscoped]

end Value

theorem Native.apply_unscoped (f : Native) (values : List Value) :
    f.apply (values.map Value.unscoped) = f.apply values := by
  cases f with
  | clock => rfl
  | squareRoot =>
    rcases values with _ | ⟨v, _ | _⟩
    · rfl
    · cases v <;> rfl
    · cases v <;> rfl
  | textOf =>
    rcases values with _ | ⟨v, _ | _⟩
    · rfl
    · cases v <;> rfl
    · rfl

/-! ## Pairs of scopes -/

/-- Which scopes are in both machines, and which scopes of the second show what scopes of
the first show. -/
structure Padding where
  home : ScopeId → ScopeId → Prop
  shown : ScopeId → ScopeId → Prop
  unique : Relator.BiUnique home
  shown_of_home : ∀ {id id'}, home id id' → shown id id'

namespace Padding

/-- The greater padding has all pairs of the smaller one. -/
instance : Preorder Padding where
  le W W' := (∀ id id', W.home id id' → W'.home id id') ∧
    ∀ id id', W.shown id id' → W'.shown id id'
  le_refl _ := ⟨fun _ _ h => h, fun _ _ h => h⟩
  le_trans _ _ _ h h' := ⟨fun _ _ p => h'.1 _ _ (h.1 _ _ p), fun _ _ p => h'.2 _ _ (h.2 _ _ p)⟩

variable {W W' : Padding}

theorem home_mono (le : W ≤ W') {id id' : ScopeId} (paired : W.home id id') : W'.home id id' :=
  le.1 id id' paired

theorem shown_mono (le : W ≤ W') {id id' : ScopeId} (shown : W.shown id id') : W'.shown id id' :=
  le.2 id id' shown

/-- Each of the first scopes is paired with itself. -/
def diagonal (scopes : Nat) : Padding where
  home id id' := id = id' ∧ id < scopes
  shown id id' := id = id' ∧ id < scopes
  unique := biUnique_below scopes
  shown_of_home h := h

end Padding

/-! ## Values -/

/-- The values are the same, but functions may close over scopes that show the same. -/
inductive Value.Padded (W : Padding) : Value → Value → Prop
  | plain {value : Value} : (∀ f, value ≠ .function f) → Padded W value value
  | function {f : Closure} {scope : ScopeId} : W.shown f.scope scope →
      Padded W (.function f) (.function { f with scope := scope })

inductive Flow.Padded (W : Padding) : Flow → Flow → Prop
  | normal : Padded W .normal .normal
  | returned {value value' : Value} : value.Padded W value' →
      Padded W (.returned value) (.returned value')

variable {W W' : Padding}

namespace Value

/-- What leads into every region leads nowhere. -/
theorem padded_of_within {v : Value} (h : ∀ R, v.Within R) : v.Padded W v := by
  have nowhere : v.ClosesOver fun _ => False := closesOver_of_within h
  refine .plain ?_
  rintro f rfl
  exact nowhere

theorem padded_self {v : Value} (h : v.ClosesOver fun id => W.shown id id) : v.Padded W v := by
  cases v with
  | function f => exact .function h
  | _ => exact padded_of_within fun _ => trivial

namespace Padded

variable {v v' : Value}

theorem mono (h : v.Padded W v') (le : W ≤ W') : v.Padded W' v' := by
  cases h with
  | plain none => exact .plain none
  | function shown => exact .function (Padding.shown_mono le shown)

theorem unscoped (h : v.Padded W v') : v'.unscoped = v.unscoped := by
  cases h <;> rfl

theorem isTruthy (h : v.Padded W v') : v'.isTruthy = v.isTruthy := by
  rw [← isTruthy_unscoped, h.unscoped, isTruthy_unscoped]

theorem text (h : v.Padded W v') : v'.text = v.text := by
  rw [← text_unscoped, h.unscoped, text_unscoped]

theorem binary {left left' right right' : Value} {operator : Token} (hl : left.Padded W left')
    (hr : right.Padded W right') : left'.binary operator right' = left.binary operator right := by
  rw [← binary_unscoped, hl.unscoped, hr.unscoped, binary_unscoped]

theorem unary {operator : Token} (h : v.Padded W v') : v'.unary operator = v.unary operator := by
  rw [← unary_unscoped, h.unscoped, unary_unscoped]

theorem decides {operator : Token} (h : v.Padded W v') :
    v'.decides operator = v.decides operator := by
  rw [← decides_unscoped, h.unscoped, decides_unscoped]

end Padded

theorem apply_padded (f : Native) {values values' : List Value}
    (h : List.Forall₂ (Padded W) values values') : f.apply values' = f.apply values := by
  have same : values'.map unscoped = values.map unscoped := by
    induction h with
    | nil => rfl
    | cons first _ ih => rw [List.map_cons, List.map_cons, first.unscoped, ih]
  rw [← Native.apply_unscoped, same, Native.apply_unscoped]

end Value

theorem Flow.Padded.value {flow flow' : Flow} (h : flow.Padded W flow') :
    flow.value.Padded W flow'.value := by
  cases h with
  | normal => exact Value.padded_of_within fun _ => trivial
  | returned h => exact h

/-! ## Machines -/

section

variable {scopes : Scopes} {scope : Scope} {id : ScopeId}

theorem Scopes.local?_push_of_lt (less : id < scopes.size) {name : String} :
    local? (scopes.push scope) id name = scopes.local? id name := by
  rw [local?_push, if_neg (Nat.ne_of_lt less)]

theorem Scopes.outer?_push_of_lt (less : id < scopes.size) :
    outer? (scopes.push scope) id = scopes.outer? id := by
  rw [outer?_push, if_neg (Nat.ne_of_lt less)]

end

/-- The scope binds nothing and is none of those that are in both machines. -/
structure Padding.Blank (W : Padding) (scopes : Scopes) (id : ScopeId) : Prop where
  unpaired : ∀ other, ¬ W.home other id
  unbound : ∀ name, scopes.local? id name = none

/-- The second machine is the first one with blank scopes in between. -/
structure Machine.Padded (W : Padding) (m m' : Machine) : Prop where
  bound : ∀ {id id'}, W.home id id' → ∀ name,
    Option.Rel (Value.Padded W) (m.scopes.local? id name) (m'.scopes.local? id' name)
  outer : ∀ {id id'}, W.home id id' →
    Option.Rel W.shown (m.scopes.outer? id) (m'.scopes.outer? id')
  through : ∀ {id id'}, W.shown id id' → W.home id id' ∨
    W.Blank m'.scopes id' ∧ ∃ outer', m'.scopes.outer? id' = some outer' ∧ W.shown id outer'
  there : ∀ {id id'}, W.shown id id' → id < m.scopes.size ∧ id' < m'.scopes.size
  /-- Links lead to older scopes, on both sides. -/
  outward : ∀ {id outer}, m.scopes.outer? id = some outer → outer < id
  outward' : ∀ {id outer}, m'.scopes.outer? id = some outer → outer < id
  functions : m.functions = m'.functions
  callDepth : m.callDepth = m'.callDepth
  sink : m.sink = m'.sink
  clock : m.clock = m'.clock

namespace Machine.Padded

variable {m m' : Machine} {id id' : ScopeId}

theorem withCallDepth (h : m.Padded W m') (depth : Nat) :
    Machine.Padded W { m with callDepth := depth } { m' with callDepth := depth } :=
  { h with callDepth := rfl }

theorem withSink (h : m.Padded W m') (sink : Sink) :
    Machine.Padded W { m with sink := sink } { m' with sink := sink } :=
  { h with sink := rfl }

theorem withClock (h : m.Padded W m') (clock : Clock) :
    Machine.Padded W { m with clock := clock } { m' with clock := clock } :=
  { h with clock := rfl }

theorem withFunctions (h : m.Padded W m') (functions : Nat) :
    Machine.Padded W { m with functions := functions } { m' with functions := functions } :=
  { h with functions := rfl }

/-! ### The nearest binding -/

/-- Where the first search takes a step outward, the second takes one or more, for it
passes through the blank scopes. -/
theorem resolve (h : m.Padded W m') (shown : W.shown id id') (name : String) :
    Option.Rel W.home (m.scopes.resolve id name) (m'.scopes.resolve id' name) := by
  suffices ∀ steps' steps id id', id < steps → id' < steps' → W.shown id id' →
      Option.Rel W.home (m.scopes.resolveWithin name steps id)
        (m'.scopes.resolveWithin name steps' id') from
    this _ _ _ _ (h.there shown).1 (h.there shown).2 shown
  intro steps'
  induction steps' with
  | zero => exact fun _ _ _ _ less => absurd less (Nat.not_lt_zero _)
  | succ steps' ih =>
    intro steps id id' less less' shown
    rw [Scopes.resolveWithin_succ]
    rcases h.through shown with paired | ⟨blank, outer', link', further⟩
    · obtain ⟨steps, rfl⟩ := Nat.exists_eq_add_one_of_ne_zero (Nat.ne_zero_of_lt less)
      rw [Scopes.resolveWithin_succ]
      have here := h.bound paired name
      have links := h.outer paired
      generalize m.scopes.local? id name = value, m'.scopes.local? id' name = value' at here ⊢
      cases here with
      | some => exact .some paired
      | none =>
        generalize out : m.scopes.outer? id = link, out' : m'.scopes.outer? id' = link'
          at links ⊢
        cases links with
        | none => exact .none
        | some further =>
          have older := Nat.lt_of_lt_of_le (h.outward out) (Nat.le_of_lt_succ less)
          have older' := Nat.lt_of_lt_of_le (h.outward' out') (Nat.le_of_lt_succ less')
          exact ih steps _ _ older older' further
    · have older' := Nat.lt_of_lt_of_le (h.outward' link') (Nat.le_of_lt_succ less')
      rw [blank.unbound name, link']
      exact ih steps id outer' less older' further

theorem get? (h : m.Padded W m') (shown : W.shown id id') (name : String) :
    Option.Rel (Value.Padded W) (m.scopes.get? id name) (m'.scopes.get? id' name) := by
  have homes := h.resolve shown name
  unfold Scopes.get?
  generalize m.scopes.resolve id name = home, m'.scopes.resolve id' name = home' at homes ⊢
  cases homes with
  | none => exact .none
  | some paired => exact h.bound paired name

/-! ### Changes -/

theorem define (h : m.Padded W m') (paired : W.home id id') (name : String)
    {value value' : Value} (hv : value.Padded W value') :
    (m.define id name value).Padded W (m'.define id' name value') where
  bound := by
    intro other other' others key
    show Option.Rel _ ((m.scopes.define id name value).local? other key)
      ((m'.scopes.define id' name value').local? other' key)
    by_cases same : id = other
    · subst same
      cases W.unique.2 paired others
      obtain ⟨inside, inside'⟩ := h.there (W.shown_of_home paired)
      rw [Scopes.local?_define_self inside, Scopes.local?_define_self inside']
      split
      · exact .some hv
      · exact h.bound paired key
    · have differ : id' ≠ other' := by
        rintro rfl
        exact same (W.unique.1 paired others)
      rw [Scopes.local?_define_ne same, Scopes.local?_define_ne differ]
      exact h.bound others key
  outer := by
    intro other other' others
    have links := h.outer others
    rwa [← Scopes.outer?_define m.scopes id name value,
      ← Scopes.outer?_define m'.scopes id' name value'] at links
  through := by
    intro other other' shown
    refine (h.through shown).imp_right ?_
    rintro ⟨blank, outer', link', further⟩
    refine ⟨⟨blank.unpaired, fun key => ?_⟩, outer', ?_, further⟩
    · have differ : id' ≠ other' := by
        rintro rfl
        exact blank.unpaired _ paired
      exact (Scopes.local?_define_ne differ).trans (blank.unbound key)
    · exact (Scopes.outer?_define ..).trans link'
  there := by
    intro other other' shown
    have inside := h.there shown
    rwa [← Scopes.size_define m.scopes id name value,
      ← Scopes.size_define m'.scopes id' name value'] at inside
  outward := by
    intro other outer link
    exact h.outward ((Scopes.outer?_define ..).symm.trans link)
  outward' := by
    intro other outer link
    exact h.outward' ((Scopes.outer?_define ..).symm.trans link)
  functions := h.functions
  callDepth := h.callDepth
  sink := h.sink
  clock := h.clock

/-- A new scope in both. -/
theorem addScope (h : m.Padded W m') {outer outer' : ScopeId} (shown : W.shown outer outer')
    {bindings bindings' : Bindings}
    (hb : ∀ name, Option.Rel (Value.Padded W) (bindings.get? name) (bindings'.get? name)) :
    ∃ W', W ≤ W' ∧ W'.home m.scopes.size m'.scopes.size ∧
      (m.addScope ⟨bindings, some outer⟩).2.Padded W' (m'.addScope ⟨bindings', some outer'⟩).2 := by
  have inside : ∀ {id id'}, W.home id id' → id < m.scopes.size ∧ id' < m'.scopes.size :=
    fun paired => h.there (W.shown_of_home paired)
  let W' : Padding :=
    { home := alsoPaired W.home m.scopes.size m'.scopes.size
      shown := alsoPaired W.shown m.scopes.size m'.scopes.size
      unique := alsoPaired_biUnique W.unique inside
      shown_of_home := fun paired => paired.imp_left W.shown_of_home }
  have le : W ≤ W' := ⟨fun _ _ => .inl, fun _ _ => .inl⟩
  refine ⟨W', le, .inr ⟨rfl, rfl⟩, ?_⟩
  refine {
    bound := ?bound
    outer := ?outer
    through := ?through
    there := ?there
    outward := Scopes.outward_push h.outward (h.there shown).1
    outward' := Scopes.outward_push h.outward' (h.there shown).2
    functions := h.functions
    callDepth := h.callDepth
    sink := h.sink
    clock := h.clock }
  case bound =>
    intro id id' paired name
    show Option.Rel _ (Scopes.local? (m.scopes.push _) id name)
      (Scopes.local? (m'.scopes.push _) id' name)
    rcases paired with before | ⟨rfl, rfl⟩
    · obtain ⟨less, less'⟩ := inside before
      rw [Scopes.local?_push_of_lt less, Scopes.local?_push_of_lt less']
      exact optionRel_imp (fun _ _ padded => padded.mono le) (h.bound before name)
    · rw [Scopes.local?_push, if_pos rfl, Scopes.local?_push, if_pos rfl]
      exact optionRel_imp (fun _ _ padded => padded.mono le) (hb name)
  case outer =>
    intro id id' paired
    show Option.Rel _ (Scopes.outer? (m.scopes.push _) id) (Scopes.outer? (m'.scopes.push _) id')
    rcases paired with before | ⟨rfl, rfl⟩
    · obtain ⟨less, less'⟩ := inside before
      rw [Scopes.outer?_push_of_lt less, Scopes.outer?_push_of_lt less']
      exact optionRel_imp (fun _ _ => .inl) (h.outer before)
    · rw [Scopes.outer?_push, if_pos rfl, Scopes.outer?_push, if_pos rfl]
      exact .some (.inl shown)
  case through =>
    rintro id id' (before | last)
    · have less' := (h.there before).2
      refine (h.through before).imp .inl ?_
      rintro ⟨blank, around, link', further⟩
      have blank' : W'.Blank (m'.scopes.push ⟨bindings', some outer'⟩) id' := by
        refine ⟨?_, fun name => (Scopes.local?_push_of_lt less').trans (blank.unbound name)⟩
        rintro other (paired | ⟨-, last⟩)
        · exact blank.unpaired other paired
        · exact Nat.ne_of_lt less' last
      exact ⟨blank', around, (Scopes.outer?_push_of_lt less').trans link', .inl further⟩
    · exact .inl (.inr last)
  case there =>
    intro id id' shown'
    show id < (m.scopes.push _).size ∧ id' < (m'.scopes.push _).size
    rw [Array.size_push, Array.size_push]
    rcases shown' with before | ⟨rfl, rfl⟩
    · obtain ⟨less, less'⟩ := h.there before
      exact ⟨Nat.lt_succ_of_lt less, Nat.lt_succ_of_lt less'⟩
    · exact ⟨Nat.lt_add_one _, Nat.lt_add_one _⟩

/-- A new blank scope in the second machine only. -/
theorem addBlank (h : m.Padded W m') {id id' : ScopeId} (shown : W.shown id id') :
    ∃ W', W ≤ W' ∧ W'.shown id m'.scopes.size ∧ m.Padded W' (m'.addScope ⟨[], some id'⟩).2 := by
  let W' : Padding :=
    { W with
      shown := alsoPaired W.shown id m'.scopes.size
      shown_of_home := fun paired => .inl (W.shown_of_home paired) }
  have le : W ≤ W' := ⟨fun _ _ paired => paired, fun _ _ => .inl⟩
  refine ⟨W', le, .inr ⟨rfl, rfl⟩, ?_⟩
  refine {
    bound := ?bound
    outer := ?outer
    through := ?through
    there := ?there
    outward := h.outward
    outward' := Scopes.outward_push h.outward' (h.there shown).2
    functions := h.functions
    callDepth := h.callDepth
    sink := h.sink
    clock := h.clock }
  case bound =>
    intro other other' paired name
    have less' := (h.there (W.shown_of_home paired)).2
    show Option.Rel _ _ (Scopes.local? (m'.scopes.push _) other' name)
    rw [Scopes.local?_push_of_lt less']
    exact optionRel_imp (fun _ _ padded => padded.mono le) (h.bound paired name)
  case outer =>
    intro other other' paired
    have less' := (h.there (W.shown_of_home paired)).2
    show Option.Rel _ _ (Scopes.outer? (m'.scopes.push _) other')
    rw [Scopes.outer?_push_of_lt less']
    exact optionRel_imp (fun _ _ => .inl) (h.outer paired)
  case through =>
    rintro other other' (before | ⟨rfl, rfl⟩)
    · have less' := (h.there before).2
      refine (h.through before).imp_right ?_
      rintro ⟨blank, outer', link', further⟩
      exact ⟨⟨blank.unpaired,
          fun name => (Scopes.local?_push_of_lt less').trans (blank.unbound name)⟩,
        outer', (Scopes.outer?_push_of_lt less').trans link', .inl further⟩
    · refine .inr ⟨⟨fun other paired => ?_, fun name => ?_⟩, id', ?_, .inl shown⟩
      · exact Nat.lt_irrefl _ (h.there (W.shown_of_home paired)).2
      · exact (Scopes.local?_push ..).trans (if_pos rfl)
      · exact (Scopes.outer?_push ..).trans (if_pos rfl)
  case there =>
    intro other other' shown'
    show other < m.scopes.size ∧ other' < (m'.scopes.push _).size
    rw [Array.size_push]
    rcases shown' with before | ⟨rfl, rfl⟩
    · exact (h.there before).imp_right Nat.lt_succ_of_lt
    · exact ⟨(h.there shown).1, Nat.lt_add_one _⟩

end Machine.Padded

/-! ### A machine by itself -/

theorem Machine.padded_self {m : Machine} (h : m.scopes.WellFormed) :
    m.Padded (.diagonal m.scopes.size) m where
  bound := by
    rintro id _ ⟨rfl, -⟩ name
    cases bound : m.scopes.local? id name with
    | none => exact .none
    | some value =>
      exact .some (Value.padded_self ((h.closures bound).mono fun id there => ⟨rfl, there⟩))
  outer := by
    rintro id _ ⟨rfl, there⟩
    cases link : m.scopes.outer? id with
    | none => exact .none
    | some outer => exact .some ⟨rfl, Nat.lt_trans (h.outward link) there⟩
  through := .inl
  there := by
    rintro id _ ⟨rfl, there⟩
    exact ⟨there, there⟩
  outward := h.outward
  outward' := h.outward
  functions := rfl
  callDepth := rfl
  sink := rfl
  clock := rfl

end Scriptlet
