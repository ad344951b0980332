/-
# Running sources

A session is one machine on which sources are run one after another.  A source
is scanned and parsed whole before any of it runs, so a source that is rejected
changes nothing.  One that fails while it runs keeps what its earlier
statements did, and the session goes on from there.
-/
import Scriptlet.Token.Scan
import Scriptlet.Tree.Parser
import Scriptlet.Eval

namespace Scriptlet

/-- Why a source was rejected or failed. -/
inductive Failure where
  | scan (errors : List ScanError)
  | parse (errors : List SyntaxError)
  | runtime (error : RuntimeError)
deriving DecidableEq, Repr

/-- All that is to be said about a failure, one error after another. -/
def Failure.message : Failure → String
  | scan errors => "\n".intercalate (errors.map (·.message))
  | parse errors => "\n".intercalate (errors.map (·.message))
  | runtime error => error.message

/-- The program that a source spells. -/
def Program.ofSource (source : String) : Except Failure Program :=
  match Token.scan source with
  | .error errors => .error (.scan errors)
  | .ok tokens =>
    match Program.parse tokens with
    | .error errors => .error (.parse errors)
    | .ok program => .ok program

/-! ## Statements at the top level -/

/-- Runs a statement by itself in a scope.  An expression gives its value, any
other statement `nil`; a `return`, which only a tree built by hand can have
here, gives what it returns. -/
def interpretIn (frames : Option Nat) (fuel : Nat) (scope : ScopeId) :
    Stmt → Run Value
  | .expression value => eval frames fuel value scope
  | statement => do pure (← exec frames fuel statement scope).value

/-- Runs statements in the global scope up to the first that fails. -/
def interpretAll (frames : Option Nat) (fuel : Nat) : Program → Run Unit
  | [] => pure ()
  | statement :: rest => do
    let _ ← interpretIn frames fuel Machine.globals statement
    interpretAll frames fuel rest

/-! ## Sources -/

/-- A computation on the machine of a session. -/
abbrev Session := EStateM (Stop Failure) Machine

namespace Session

/-- A run as a step of a session. -/
def ofRun {α : Type} (run : Run α) : Session α := fun m =>
  match run m with
  | .ok a m => .ok a m
  | .error (.failed e) m => .error (.failed (.runtime e)) m
  | .error .outOfFuel m => .error .outOfFuel m

def ofExcept {α : Type} : Except Failure α → Session α
  | .ok a => fun m => .ok a m
  | .error e => fun m => .error (.failed e) m

/-- Writes text as it is. -/
def write (text : String) : Session Unit := fun m =>
  .ok () { m with sink := m.sink.write text.toUTF8 }

end Session

/-- Runs a source in the global scope, with at most `maxFrames` calls active at
once. -/
def execute (fuel : Nat) (source : String) : Session Unit := do
  let program ← Session.ofExcept (Program.ofSource source)
  Session.ofRun (interpretAll (some maxFrames) fuel program)

/-- Fuel that no run uses up in practice. -/
def ampleFuel : Nat := twoTo 62

end Scriptlet
