/-
# What happens in a run

Evaluation says what a run gives and what it leaves.  The trace says what it did
on the way: the names that it looked up, assigned and declared, the functions
that it made and called, and what it printed, in order and each with the machine
as it was right before.

A trace is told by a run that tells of itself (`Told`).  Such a run is put together
from parts that tell of themselves, so that nothing is told but what the run does;
and it does what evaluation does, with the same calls, arguments and scopes, which
is a theorem (`Told.call_run`, `Told.eval_run`, `Told.exec_run`).

How many calls are active around an event is counted by the nesting of the calls
in the trace, not by the counter that a machine keeps, so that the two can be
compared.
-/
import Scriptlet.Session
import Scriptlet.Proofs.Run.Outcome

namespace Scriptlet

/-- What a run is about to do. -/
inductive Act where
  | reads (scope : ScopeId) (name : Token)
  | assigns (scope : ScopeId) (name : Token)
  | declares (scope : ScopeId) (name : Token)
  /-- Calls a function with as many arguments as it takes; the line is that of
  the closing parenthesis. -/
  | calls (function : Closure) (line : Nat)
  | creates (function : Closure)
  /-- Hands a function the values of its arguments, which comes before anything
  else in a call. -/
  | passes (function : Closure) (arguments : List Value)
  /-- Runs the body of a function in the scope made for its parameters. -/
  | enters (function : Closure) (scope : ScopeId)
  /-- Prints the text and a line break. -/
  | prints (scope : ScopeId) (text : String)
deriving DecidableEq

/-- The scope that the act starts from; a call makes its own scope inside. -/
def Act.scope : Act → ScopeId
  | reads scope _ | assigns scope _ | declares scope _ | enters _ scope | prints scope _ => scope
  | calls f _ | creates f | passes f _ => f.scope

structure Event where
  act : Act
  /-- The calls of the run that are active around it. -/
  active : Nat
  /-- The machine right before. -/
  machine : Machine

/-- The event as seen from outside of one more call. -/
def Event.deeper (e : Event) : Event := { e with active := e.active + 1 }

/-- What is told of a run from a machine. -/
abbrev Trace (ε : Type) := Machine → List ε

namespace Trace

open Run

variable {α ε : Type}

def nothing : Trace ε := fun _ => []

/-- What is told of a run, and then of what is done with its value. -/
def next (events : Trace ε) (run : Run α) (rest : α → Trace ε) : Trace ε := fun m =>
  events m ++ match run m with
    | .ok a m' => rest a m'
    | .error _ _ => []

variable {events : Trace ε} {run : Run α} {rest : α → Trace ε} {m m' : Machine}

theorem next_ok {a : α} (h : run m = .ok a m') :
    events.next run rest m = events m ++ rest a m' := by
  unfold next
  rw [h]

theorem next_error {e : Stop RuntimeError} (h : run m = .error e m') :
    events.next run rest m = events m := by
  unfold next
  rw [h, List.append_nil]

/-- A run that is followed by another either stops, and then so do both, or
gives a value, and then both go on from the machine that it leaves. -/
theorem next_cases {β : Type} (events : Trace ε) (run : Run α) (rest : α → Trace ε)
    (k : α → Run β) (m : Machine) :
    (∃ e, outcome run m = .error e ∧ outcome (run >>= k) m = .error e ∧
      after (run >>= k) m = after run m ∧ events.next run rest m = events m) ∨
    ∃ a, outcome run m = .ok a ∧ outcome (run >>= k) m = outcome (k a) (after run m) ∧
      after (run >>= k) m = after (k a) (after run m) ∧
      events.next run rest m = events m ++ rest a (after run m) := by
  rw [outcome_bind, after_bind]
  cases ran : run m with
  | error e m' =>
    have ended : outcome run m = .error e := by simp only [outcome, ran]
    rw [ended]
    exact .inl ⟨e, rfl, rfl, rfl, next_error ran⟩
  | ok a m' =>
    have ended : outcome run m = .ok a := by simp only [outcome, ran]
    have left : after run m = m' := by simp only [after, ran]
    rw [ended, left]
    exact .inr ⟨a, rfl, rfl, rfl, next_ok ran⟩

theorem next_nothing (events : Trace ε) (run : Run α) :
    events.next run (fun _ => nothing) = events := by
  funext m
  cases h : run m with
  | ok a m' => exact (next_ok h).trans (List.append_nil _)
  | error e m' => exact next_error h

def loop (ofCondition : Trace ε) (condition : Run Value) (ofBody : Trace ε) (body : Run Flow) :
    (rounds : Nat) → Trace ε
  | 0 => nothing
  | rounds + 1 => ofCondition.next condition fun value =>
    if value.isTruthy then
      ofBody.next body fun
        | .normal => loop ofCondition condition ofBody body rounds
        | .returned _ => nothing
    else nothing

end Trace

/-! ## Runs that are told -/

/-- A run, and what it tells of itself. -/
structure Told (α : Type) where
  run : Run α
  events : Trace Event

namespace Told

variable {α β : Type}

/-- A run that tells nothing. -/
def silent (run : Run α) : Told α := ⟨run, .nothing⟩

instance : Monad Told where
  pure a := silent (pure a)
  bind told k :=
    ⟨told.run >>= fun a => (k a).run, told.events.next told.run fun a => (k a).events⟩

section

variable (told : Told α) (k : α → Told β)

theorem bind_run : (told >>= k).run = told.run >>= fun a => (k a).run := rfl

theorem bind_events : (told >>= k).events = told.events.next told.run fun a => (k a).events := rfl

end

/-- An act is told before anything else. -/
def first (act : Act) (told : Told α) : Told α :=
  { told with events := fun m => ⟨act, 0, m⟩ :: told.events m }

def openScope (outer : ScopeId) (bindings : Bindings) : Told ScopeId :=
  silent (Run.openScope outer bindings)

def define (id : ScopeId) (name : Token) (value : Value) : Told Unit :=
  first (.declares id name) (silent (Run.define id name.lexeme value))

def lookup (id : ScopeId) (name : Token) : Told Value :=
  first (.reads id name) (silent (Run.lookup id name))

def assign (id : ScopeId) (name : Token) (value : Value) : Told Unit :=
  first (.assigns id name) (silent (Run.assign id name value))

/-- The making of a function, which is numbered by the functions made before. -/
def newFunction (name : Token) (params : List Token) (body : List Stmt) (scope : ScopeId) :
    Told Value where
  run := Run.newFunction name params body scope
  events m := [⟨.creates ⟨m.functions, name, params, body, scope⟩, 0, m⟩]

def print (scope : ScopeId) (text : String) : Told Unit :=
  first (.prints scope text) (silent (Run.print text))

/-- A call, and what the body of the function tells if there is a frame left for
it. -/
def inFrame (frames : Option Nat) (f : Closure) (line : Nat) (body : Told α) : Told α where
  run := Run.inFrame frames line body.run
  events m :=
    ⟨.calls f line, 0, m⟩ ::
      if frames.any (· ≤ m.callDepth) then []
      else (body.events { m with callDepth := m.callDepth + 1 }).map Event.deeper

section

variable (frames : Option Nat) (f : Closure) (line : Nat) (body : Told α)

theorem inFrame_run : (body.inFrame frames f line).run = Run.inFrame frames line body.run := rfl

theorem inFrame_events (m : Machine) :
    (body.inFrame frames f line).events m = ⟨.calls f line, 0, m⟩ ::
      if frames.any (· ≤ m.callDepth) then []
      else (body.events { m with callDepth := m.callDepth + 1 }).map Event.deeper := rfl

end

def each (run : α → Told β) : List α → Told (List β)
  | [] => pure []
  | a :: as => do
    let b ← run a
    let bs ← each run as
    pure (b :: bs)

def sequence (exec : Stmt → Told Flow) : List Stmt → Told Flow
  | [] => pure .normal
  | statement :: rest => do
    match ← exec statement with
    | .normal => sequence exec rest
    | .returned value => pure (.returned value)

def loop (condition : Told Value) (body : Told Flow) : (rounds : Nat) → Told Flow
  | 0 => silent Run.outOfFuel
  | rounds + 1 => do
    if (← condition).isTruthy then
      match ← body with
      | .normal => loop condition body rounds
      | .returned value => pure (.returned value)
    else pure .normal

def call (frames : Option Nat) (exec : Stmt → ScopeId → Told Flow) (callee : Value)
    (arguments : List Value) (line : Nat) : Told Value :=
  match callee with
  | .function f => do
    silent (Run.checkArity f.arity arguments.length line)
    first (.passes f arguments) <| inFrame frames f line do
      let scope ← openScope f.scope (.ofLists (f.params.map (·.lexeme)) arguments)
      first (.enters f scope) do
        let flow ← sequence (fun statement => exec statement scope) f.body
        pure flow.value
  | .native f => do
    silent (Run.checkArity f.arity arguments.length line)
    silent (Run.native f arguments line)
  | _ => silent (Run.fail (.notCallable line))

mutual

def eval (frames : Option Nat) : (fuel : Nat) → Expr → ScopeId → Told Value
  | 0, _, _ => silent Run.outOfFuel
  | fuel + 1, .assign name value, scope => do
    let result ← eval frames fuel value scope
    assign scope name result
    pure result
  | fuel + 1, .binary left operator right, scope => do
    let leftValue ← eval frames fuel left scope
    let rightValue ← eval frames fuel right scope
    silent (Run.ofExcept (leftValue.binary operator rightValue))
  | fuel + 1, .call callee paren arguments, scope => do
    let function ← eval frames fuel callee scope
    let values ← each (fun argument => eval frames fuel argument scope) arguments
    call frames (fun statement scope => exec frames fuel statement scope) function values
      paren.line
  | fuel + 1, .grouping inner, scope => eval frames fuel inner scope
  | _ + 1, .literal value, _ => pure (.ofLiteral value)
  | fuel + 1, .logical left operator right, scope => do
    let leftValue ← eval frames fuel left scope
    if ← silent (Run.ofExcept (leftValue.decides operator)) then pure leftValue
    else eval frames fuel right scope
  | fuel + 1, .unary operator operand, scope => do
    let value ← eval frames fuel operand scope
    silent (Run.ofExcept (value.unary operator))
  | _ + 1, .identifier name, scope => lookup scope name

def exec (frames : Option Nat) : (fuel : Nat) → Stmt → ScopeId → Told Flow
  | 0, _, _ => silent Run.outOfFuel
  | fuel + 1, .block statements, scope => do
    let inner ← openScope scope []
    sequence (fun statement => exec frames fuel statement inner) statements
  | fuel + 1, .expression value, scope => do
    let _ ← eval frames fuel value scope
    pure .normal
  | _ + 1, .function name params body, scope => do
    define scope name (← newFunction name params body scope)
    pure .normal
  | fuel + 1, .ifThen condition thenBranch, scope => do
    if (← eval frames fuel condition scope).isTruthy then exec frames fuel thenBranch scope
    else pure .normal
  | fuel + 1, .ifElse condition thenBranch elseBranch, scope => do
    if (← eval frames fuel condition scope).isTruthy then exec frames fuel thenBranch scope
    else exec frames fuel elseBranch scope
  | fuel + 1, .print value, scope => do
    print scope (← eval frames fuel value scope).text
    pure .normal
  | _ + 1, .returns _ none, _ => pure (.returned .nil)
  | fuel + 1, .returns _ (some value), scope => do
    pure (.returned (← eval frames fuel value scope))
  | fuel + 1, .var name initial, scope => do
    define scope name (← eval frames fuel initial scope)
    pure .normal
  | fuel + 1, .whileLoop condition body, scope =>
    loop (eval frames fuel condition scope) (exec frames fuel body scope) fuel

end

/-- A statement that is run by itself in a scope. -/
def interpretIn (frames : Option Nat) (fuel : Nat) (scope : ScopeId) : Stmt → Told Value
  | .expression value => eval frames fuel value scope
  | statement => do pure (← exec frames fuel statement scope).value

/-- Statements that are run in the global scope up to the first that fails. -/
def interpretAll (frames : Option Nat) (fuel : Nat) : Program → Told Unit
  | [] => pure ()
  | statement :: rest => do
    let _ ← interpretIn frames fuel Machine.globals statement
    interpretAll frames fuel rest

end Told

/-- The events of a statement that is run by itself in a scope. -/
def interpretEvents (frames : Option Nat) (fuel : Nat) (scope : ScopeId) (s : Stmt) :
    Trace Event := (Told.interpretIn frames fuel scope s).events

/-- The events of statements that are run in the global scope up to the first
that fails. -/
def programEvents (frames : Option Nat) (fuel : Nat) (program : Program) : Trace Event :=
  (Told.interpretAll frames fuel program).events

/-- The events of programs that are run one after another, whether those before
have failed or not. -/
def history (frames : Option Nat) (fuel : Nat) : List Program → Trace Event
  | [] => .nothing
  | program :: rest => fun m => programEvents frames fuel program m ++
      history frames fuel rest (Run.after (interpretAll frames fuel program) m)

end Scriptlet
