/-
# The state of a run

A `Machine` is everything that one statement leaves to the next: the scopes,
the number of functions made, the number of calls active, the output and what
the clock is going to show.  The operations here are the only ones that change
it.  A run either ends or stops;
it stops at an error or because the fuel it was given is used up, and the
machine is kept in each case, with all that was done until then.
-/
import Scriptlet.Scope
import Scriptlet.Sink
import Scriptlet.Value.Operator

namespace Scriptlet

structure Machine where
  scopes : Scopes
  /-- The functions made so far; the next one has this identity. -/
  functions : Nat
  /-- The calls of declared functions that are active. -/
  callDepth : Nat
  sink : Sink
  clock : Clock

/-- Why a run stopped. -/
inductive Stop (ε : Type) where
  | failed (error : ε)
  | outOfFuel
deriving DecidableEq, Repr

/-- A computation on a machine that may stop. -/
abbrev Run := EStateM (Stop RuntimeError) Machine

namespace Machine

/-- The scope that a machine starts with. -/
def globals : ScopeId := 0

/-- A machine that has run nothing and has the given clock.  Its one scope binds
the native functions. -/
def initial (clock : Clock) : Machine :=
  { scopes := #[⟨Native.all.map fun f => (f.name, .native f), none⟩]
    functions := 0
    callDepth := 0
    sink := .empty
    clock }

/-- Adds a scope and says which it is. -/
def addScope (scope : Scope) (m : Machine) : ScopeId × Machine :=
  (m.scopes.size, { m with scopes := m.scopes.push scope })

def define (id : ScopeId) (name : String) (value : Value) (m : Machine) : Machine :=
  { m with scopes := m.scopes.define id name value }

end Machine

namespace Run

/-- Stops at an error. -/
def fail {α : Type} (e : RuntimeError) : Run α := fun m => .error (.failed e) m

def outOfFuel {α : Type} : Run α := fun m => .error .outOfFuel m

def ofExcept {α : Type} : Except RuntimeError α → Run α
  | .ok a => fun m => .ok a m
  | .error e => fail e

/-- Makes a scope with the given bindings inside another one. -/
def openScope (outer : ScopeId) (bindings : Bindings) : Run ScopeId := fun m =>
  let (id, m) := m.addScope ⟨bindings, some outer⟩
  .ok id m

/-- Binds a name in a scope. -/
def define (id : ScopeId) (name : String) (value : Value) : Run Unit := fun m =>
  .ok () (m.define id name value)

/-- The value of a name as seen from a scope. -/
def lookup (id : ScopeId) (name : Token) : Run Value := fun m =>
  match m.scopes.get? id name.lexeme with
  | some value => .ok value m
  | none => fail (.undefinedVariable name.lexeme name.line) m

/-- Gives a new value to the nearest binding of a name. -/
def assign (id : ScopeId) (name : Token) (value : Value) : Run Unit := fun m =>
  match m.scopes.resolve id name.lexeme with
  | some home => .ok () (m.define home name.lexeme value)
  | none => fail (.undefinedVariable name.lexeme name.line) m

/-- Makes a new function that closes over a scope. -/
def newFunction (name : Token) (params : List Token) (body : List Stmt) (scope : ScopeId) :
    Run Value := fun m =>
  .ok (.function ⟨m.functions, name, params, body, scope⟩) { m with functions := m.functions + 1 }

/-- Applies a native function; all that it changes is what the clock shows
next. -/
def native (f : Native) (arguments : List Value) (line : Nat) : Run Value := fun m =>
  match f.apply arguments m.clock with
  | .ok value clock => .ok value { m with clock }
  | .error fault clock => fail (.native f.name fault line) { m with clock }

/-- Prints a line. -/
def print (text : String) : Run Unit := fun m =>
  let line := (text ++ "\n").toUTF8
  if m.sink.fits line then .ok () { m with sink := m.sink.write line }
  else fail (.output Sink.fullText) { m with sink := m.sink.write line }

/-- Runs the body of a call one frame deeper; `frames` is the most frames that
may be active, if there is a limit.  However the body ends, the frame is gone
afterwards. -/
def inFrame {α : Type} (frames : Option Nat) (line : Nat) (body : Run α) : Run α := fun m =>
  if frames.any (· ≤ m.callDepth) then fail (.stackOverflow line) m
  else
    let depth := m.callDepth
    match body { m with callDepth := depth + 1 } with
    | .ok a m => .ok a { m with callDepth := depth }
    | .error e m => .error e { m with callDepth := depth }

/-- Runs a computation on every item, from left to right. -/
@[specialize] def each {α β : Type} (run : α → Run β) : List α → Run (List β)
  | [] => pure []
  | a :: as => do
    let b ← run a
    let bs ← each run as
    pure (b :: bs)

end Run

end Scriptlet
