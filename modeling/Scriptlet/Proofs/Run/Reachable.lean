/-
# Machines that come about

What a program that embeds the language can do to a machine: make scopes, bind
and assign names in scopes that are there, run statements in them, and change
where output goes.  Whatever comes of it is a reachable machine, also when an
assignment or a statement fails; one that is still running for want of fuel is
counted among them, too.
-/
import Scriptlet.Session
import Scriptlet.Proofs.Run.Outcome
import Scriptlet.Proofs.Scopes.Changes
import Mathlib.Logic.Relation

namespace Scriptlet

/-- If the value is a function, it closes over a scope of the given kind. -/
def Value.ClosesOver (p : ScopeId → Prop) : Value → Prop
  | .function f => p f.scope
  | _ => True

namespace Machine

/-- One thing that may be done to a machine from outside. -/
inductive Step : Machine → Machine → Prop
  /-- A new scope, by itself or inside one that is there. -/
  | scope {m : Machine} {outer : Option ScopeId} : (∀ id ∈ outer, id < m.scopes.size) →
      Step m (m.addScope ⟨[], outer⟩).2
  | define {m : Machine} {id : ScopeId} {name : String} {value : Value} :
      id < m.scopes.size → value.ClosesOver (· < m.scopes.size) → Step m (m.define id name value)
  | assign {m : Machine} {id : ScopeId} {name : Token} {value : Value} :
      id < m.scopes.size → value.ClosesOver (· < m.scopes.size) →
      Step m (Run.after (Run.assign id name value) m)
  | run {m : Machine} {fuel : Nat} {id : ScopeId} {s : Stmt} :
      id < m.scopes.size → Step m (Run.after (interpretIn (some maxFrames) fuel id s) m)
  | output {m : Machine} {sink : Sink} : Step m { m with sink := sink }

/-- What one machine may become in any number of steps. -/
abbrev Leads : Machine → Machine → Prop := Relation.ReflTransGen Step

/-- A machine that comes about from one that has run nothing, whatever the clock
shows meanwhile. -/
def Reachable (m : Machine) : Prop := ∃ clock, Leads (initial clock) m

theorem reachable_initial (clock : Clock) : Reachable (initial clock) := ⟨clock, .refl⟩

theorem Reachable.tail {m m' : Machine} (reached : m.Reachable) (step : Step m m') :
    m'.Reachable :=
  reached.imp fun _ leads => leads.tail step

/-- A machine that has run nothing binds native functions only. -/
theorem native_of_initial {clock : Clock} {id : ScopeId} {name : String} {value : Value}
    (bound : (initial clock).scopes.local? id name = some value) : ∃ f, value = .native f := by
  cases id with
  | zero =>
    have bound : Bindings.get? name (Native.all.map fun f => (f.name, .native f)) =
        some value := bound
    obtain ⟨f, -, same⟩ := List.mem_map.1 (Bindings.mem_of_get? bound)
    cases same
    exact ⟨f, rfl⟩
  | succ id => cases bound

/-- A statement may be run in the global scope of a machine that has run
nothing. -/
theorem globals_lt_size (clock : Clock) : globals < (initial clock).scopes.size :=
  Nat.lt_add_one 0

end Machine

/-! ## Trees to run by hand -/

/-- A name on the first line. -/
def Token.ofName (lexeme : String) : Token := ⟨.identifier, lexeme, none, 1⟩

/-- A call of a function with no arguments, closed on the given line. -/
def Expr.callOf (function : String) (line : Nat) : Expr :=
  .call (.identifier (.ofName function)) ⟨.rightParen, ")", none, line⟩ []

end Scriptlet
