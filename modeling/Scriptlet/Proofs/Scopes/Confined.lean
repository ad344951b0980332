/-
# What a computation cannot reach

A run is confined to a set of scopes if it writes no scope outside of the set
and does the same whatever these scopes hold.  An expression or a statement is
confined to the scopes within reach of the one that it runs in, and a call to
the scopes that it finds; scopes that are made on the way are nobody else's.

So closures that find only outer scopes in common, as two counters do that one
maker made, cannot disturb what each of them finds besides.
-/
import Scriptlet.Session
import Scriptlet.Proofs.Scopes.Within

namespace Scriptlet

open Run

/-- The run from `m` leaves the scopes outside `S` alone: they are what they
were, and it does not matter what they were. -/
structure Run.Confined {α : Type} (run : Run α) (m : Machine) (S : ScopeId → Prop) : Prop where
  kept : ∀ id < m.scopes.size, ¬ S id → (after run m).scopes[id]? = m.scopes[id]?
  /-- From a machine that differs in scopes outside `S` only, the outcome is the
  same, the output and all scopes of `S` and those made on the way are the same
  afterwards, and again nothing outside `S` is written. -/
  blind : ∀ m', m.AgreeOn S m' →
    outcome run m' = outcome run m ∧
      (after run m).AgreeOn (fun id => S id ∨ m.scopes.size ≤ id) (after run m') ∧
        ∀ id < m.scopes.size, ¬ S id → (after run m').scopes[id]? = m'.scopes[id]?

namespace Machine.AgreeOn

variable {S T : ScopeId → Prop} {m m' : Machine}

theorem mono (h : m.AgreeOn T m') (hST : ∀ id, S id → T id) : m.AgreeOn S m' :=
  { h with scopes := fun id hid => h.scopes id (hST id hid) }

/-- There is nothing yet in the scopes still to be made. -/
theorem fresh (h : m.AgreeOn S m') : m.AgreeOn (fun id => S id ∨ m.scopes.size ≤ id) m' := by
  refine { h with scopes := fun id hid => ?_ }
  rcases hid with hid | hid
  · exact h.scopes id hid
  · rw [Array.getElem?_eq_none hid, Array.getElem?_eq_none (h.size ▸ hid)]

end Machine.AgreeOn

namespace Run

variable {α : Type} {run : Run α} {m : Machine} {S T : ScopeId → Prop}

theorem Within.confined {R : Region} {P : α → Prop} (h : Within R P run) (hc : R.Covers m)
    (hR : R.scopes = fun id => S id ∨ m.scopes.size ≤ id) : Confined run m S := by
  have outside : ∀ id < m.scopes.size, ¬ S id → ¬ R.scopes id := by
    intro id hlt hid
    rw [hR]
    exact not_or.2 ⟨hid, Nat.not_le.2 hlt⟩
  constructor
  · intro id hlt hid
    exact (h m m hc (.refl _ m)).kept id (outside id hlt hid)
  · intro m' ha
    have steady := h m m' hc (hR ▸ ha.fresh)
    exact ⟨steady.outcome, hR ▸ steady.agree,
      fun id hlt hid => steady.kept' id (outside id hlt hid)⟩

theorem Confined.mono (h : Confined run m S) (hST : ∀ id, S id → T id) : Confined run m T := by
  constructor
  · exact fun id hlt hid => h.kept id hlt fun hs => hid (hST id hs)
  · intro m' ha
    obtain ⟨ho, hafter, hkept⟩ := h.blind m' (ha.mono hST)
    refine ⟨ho, { hafter with scopes := fun id hid => ?_ },
      fun id hlt hid => hkept id hlt fun hs => hid (hST id hs)⟩
    by_cases hs : S id ∨ m.scopes.size ≤ id
    · exact hafter.scopes id hs
    · -- in `T` only, so that neither run writes it
      obtain ⟨hs, hlt⟩ := not_or.1 hs
      rw [hkept id (Nat.not_le.1 hlt) hs, h.kept id (Nat.not_le.1 hlt) hs]
      exact ha.scopes id (hid.resolve_right hlt)

/-- A call is confined to the scopes that it finds. -/
theorem confined_call (frames : Option Nat) (fuel : Nat) (m : Machine) (callee : Value)
    (arguments : List Value) (line : Nat) :
    Confined (call frames (exec frames fuel) callee arguments line) m
      fun id => m.scopes.Finds (callee :: arguments) (.scope id) := by
  have given : ∀ v ∈ callee :: arguments, v.Within (.found m.scopes (callee :: arguments)) :=
    fun _ => Region.within_found
  obtain ⟨hcallee, harguments⟩ := List.forall_mem_cons.1 given
  have h := Within.call (within_eval_exec _ frames fuel).2 frames hcallee harguments line
  exact h.confined (Region.covers_found m _) rfl

end Run

/-- Scopes that a computation cannot reach are neither written nor read, neither
by an expression or a statement in a scope `env`, nor, among what a closure `g`
finds, by a call of a closure `f` that finds only outer scopes in common with
it. -/
theorem evaluation_confined (frames : Option Nat) (fuel : Nat) (m : Machine) :
    (∀ (e : Expr) (env : ScopeId),
      Confined (eval frames fuel e env) m fun id => m.scopes.Reach [env] id) ∧
    (∀ (s : Stmt) (env : ScopeId),
      Confined (exec frames fuel s env) m fun id => m.scopes.Reach [env] id) ∧
    ∀ (f g : Closure) (outer : ScopeId → Prop) (arguments : List Value) (line : Nat),
      (∀ id, m.scopes.Finds (.function f :: arguments) (.scope id) →
        m.scopes.Finds [.function g] (.scope id) → outer id) →
      Confined (call frames (exec frames fuel) (.function f) arguments line) m
        fun id => m.scopes.Finds [.function g] (.scope id) → outer id := by
  refine ⟨fun e env => ?_, fun s env => ?_, ?_⟩
  · have h := (within_eval_exec (.reached m.scopes [env]) frames fuel).1 e env
      (fun _ _ => trivial) (.inl (.root List.mem_cons_self))
    exact h.confined (Region.covers_reached m _) rfl
  · have h := (within_eval_exec (.reached m.scopes [env]) frames fuel).2 s env
      (fun _ _ => trivial) (.inl (.root List.mem_cons_self))
    exact h.confined (Region.covers_reached m _) rfl
  · intro f g outer arguments line common
    exact (confined_call frames fuel m _ arguments line).mono common

/-! ## Two counters -/

namespace Counters

/-- A name on the first line. -/
def word (lexeme : String) : Token := ⟨.identifier, lexeme, none, 1⟩

/-- The text `count = count + 1; return count;`. -/
def body : List Stmt :=
  [.expression (.assign (word "count")
      (.binary (.identifier (word "count")) ⟨.plus, "+", none, 1⟩ (.literal (.number 1)))),
    .returns ⟨.kwReturn, "return", none, 1⟩ (some (.identifier (word "count")))]

/-- The body of a maker of counters, each of which is a function `increment`
with a `count` of its own. -/
def makerBody : List Stmt :=
  [.var (word "count") (.literal (.number 0)), .function (word "increment") [] body,
    .returns ⟨.kwReturn, "return", none, 1⟩ (some (.identifier (word "increment")))]

/-- The maker, and two calls of it. -/
def program : Program :=
  [.function (word "makeCounter") [] makerBody,
    .var (word "first") (.call (.identifier (word "makeCounter")) ⟨.rightParen, ")", none, 1⟩ []),
    .var (word "second") (.call (.identifier (word "makeCounter")) ⟨.rightParen, ")", none, 1⟩ [])]

/-- The machine on which both counters are made. -/
def made : Machine := after (interpretAll (some maxFrames) 9 program) (.initial (.still 0))

/-- What the `n`th call of the maker gives; its scope is the `n`th after the
global one. -/
def counter (n : Nat) : Closure := ⟨n, word "increment", [], body, n⟩

def scope (n : Nat) : Scope :=
  ⟨[("count", .number 0), ("increment", .function (counter n))], some Machine.globals⟩

def globalScope : Scope :=
  ⟨[("clock", .native .clock), ("sqrt", .native .squareRoot), ("toString", .native .textOf),
    ("makeCounter", .function ⟨0, word "makeCounter", [], makerBody, Machine.globals⟩),
    ("first", .function (counter 1)), ("second", .function (counter 2))], none⟩

theorem made_scopes : made.scopes = #[globalScope, scope 1, scope 2] := by decide +kernel

theorem made_scope {n : Nat} (hn : n = 1 ∨ n = 2) : made.scopes[n]? = some (scope n) := by
  rw [made_scopes]
  rcases hn with rfl | rfl <;> rfl

/-- A counter finds itself, its scope and the global one, and no name but
`count`, to which neither scope binds a function. -/
theorem of_finds {n : Nat} (hn : n = 1 ∨ n = 2) {thing : Scopes.Thing}
    (h : made.scopes.Finds [.function (counter n)] thing) :
    thing = .function (counter n) ∨ thing = .scope n ∨ thing = .scope Machine.globals ∨
      thing = .name "count" := by
  have own : made.scopes[n]? = some (scope n) := made_scope hn
  have globals : made.scopes[Machine.globals]? = some globalScope := by
    rw [made_scopes]
    rfl
  induction h with
  | given h =>
    cases List.mem_singleton.1 h
    exact .inl rfl
  | bound _ _ hv hscope hname =>
    rcases hname with h | h | h | h <;> cases h
    rcases hscope with h | h | h | h <;> cases h
    · rw [Scopes.local?, own] at hv
      exact absurd hv nofun
    · rw [Scopes.local?, globals] at hv
      exact absurd hv nofun
  | scope _ hf =>
    rcases hf with h | h | h | h <;> cases h
    exact .inr (.inl rfl)
  | name _ hname hf =>
    rcases hf with h | h | h | h <;> cases h
    have hname : _ ∈ ["count", "count", "count"] := hname
    simp only [List.mem_cons, List.not_mem_nil, or_false, or_self] at hname
    exact .inr (.inr (.inr (hname ▸ rfl)))
  | enclosing _ hs ho hscope =>
    rcases hscope with h | h | h | h <;> cases h
    · rw [own] at hs
      cases hs
      cases ho
      exact .inr (.inr (.inl rfl))
    · rw [globals] at hs
      cases hs
      cases ho

end Counters

open Counters

/-- The two counters have the global scope in common and nothing else, so a call
of the first leaves the count of the second alone. -/
theorem counters_apart :
    (∀ id, made.scopes.Finds [.function (counter 1)] (.scope id) →
      made.scopes.Finds [.function (counter 2)] (.scope id) → id = Machine.globals) ∧
    Confined (call (some maxFrames) (exec (some maxFrames) 9) (.function (counter 1)) [] 1) made
      (fun id => made.scopes.Finds [.function (counter 2)] (.scope id) → id = Machine.globals) ∧
    (after (call (some maxFrames) (exec (some maxFrames) 9) (.function (counter 1)) [] 1)
      made).scopes[2]? = some (scope 2) := by
  have common : ∀ id, made.scopes.Finds [.function (counter 1)] (.scope id) →
      made.scopes.Finds [.function (counter 2)] (.scope id) → id = Machine.globals := by
    intro id first second
    rcases of_finds (.inl rfl) first with h | h | h | h <;> cases h
    · rcases of_finds (.inr rfl) second with h | h | h | h <;> cases h
    · rfl
  have confined := (evaluation_confined (some maxFrames) 9 made).2.2 (counter 1) (counter 2)
    (· = Machine.globals) [] 1 common
  have there : 2 < made.scopes.size := by
    rw [made_scopes]
    decide
  refine ⟨common, confined, (confined.kept 2 there fun h => ?_).trans (made_scope (.inr rfl))⟩
  exact absurd (h (.scope (.given List.mem_cons_self))) nofun

end Scriptlet
