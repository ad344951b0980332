/-
# Evaluation

Expressions give values and statements give a `Flow`.  Operands are evaluated
from left to right, and all of them before anything is said about any; the
arguments of a call come after its callee, and what can be wrong with a call is
looked at last: first the callee, then the number of arguments, then the number
of active calls.

Evaluation need not end, so both functions take fuel.  It bounds how far steps
into subterms and function bodies may go inside each other, and how many rounds
a loop may take; a result that did not need all of the fuel is the same with any
more of it.
-/
import Scriptlet.Machine

namespace Scriptlet

/-- How a statement ended: it ran to its end, or a `return` in it carries a
value out of the function around it. -/
inductive Flow where
  | normal
  | returned (value : Value)
deriving DecidableEq

/-- The value of a call whose body ended in the given way. -/
def Flow.value : Flow → Value
  | normal => .nil
  | returned value => value

/-- The most calls of declared functions that may be active at once. -/
def maxFrames : Nat := 256

namespace Run

/-- Runs statements in order up to the first that returns. -/
@[specialize] def sequence (exec : Stmt → Run Flow) : List Stmt → Run Flow
  | [] => pure .normal
  | statement :: rest => do
    match ← exec statement with
    | .normal => sequence exec rest
    | .returned value => pure (.returned value)

/-- Runs the body as long as the condition is truthy and the body does not
return, but for `rounds` rounds at most. -/
@[specialize] def loop (condition : Run Value) (body : Run Flow) : (rounds : Nat) → Run Flow
  | 0 => outOfFuel
  | rounds + 1 => do
    if (← condition).isTruthy then
      match ← body with
      | .normal => loop condition body rounds
      | .returned value => pure (.returned value)
    else pure .normal

def checkArity (expected found line : Nat) : Run Unit :=
  if expected = found then pure () else fail (.arityMismatch expected found line)

/-- Calls a value; `exec` runs a statement of a function body in a scope.  The
parameters live in a new scope inside the one that the function closes over. -/
@[specialize] def call (frames : Option Nat) (exec : Stmt → ScopeId → Run Flow)
    (callee : Value) (arguments : List Value) (line : Nat) : Run Value :=
  match callee with
  | .function f => do
    checkArity f.arity arguments.length line
    inFrame frames line do
      let scope ← openScope f.scope (.ofLists (f.params.map (·.lexeme)) arguments)
      let flow ← sequence (fun statement => exec statement scope) f.body
      pure flow.value
  | .native f => do
    checkArity f.arity arguments.length line
    native f arguments line
  | _ => fail (.notCallable line)

end Run

open Run

mutual

/-- The value of an expression in a scope. -/
def eval (frames : Option Nat) : (fuel : Nat) → Expr → ScopeId → Run Value
  | 0, _, _ => outOfFuel
  | fuel + 1, .assign name value, scope => do
    let result ← eval frames fuel value scope
    assign scope name result
    pure result
  | fuel + 1, .binary left operator right, scope => do
    let leftValue ← eval frames fuel left scope
    let rightValue ← eval frames fuel right scope
    ofExcept (leftValue.binary operator rightValue)
  | fuel + 1, .call callee paren arguments, scope => do
    let function ← eval frames fuel callee scope
    let values ← each (fun argument => eval frames fuel argument scope) arguments
    call frames (fun statement scope => exec frames fuel statement scope) function values
      paren.line
  | fuel + 1, .grouping inner, scope => eval frames fuel inner scope
  | _ + 1, .literal value, _ => pure (.ofLiteral value)
  | fuel + 1, .logical left operator right, scope => do
    let leftValue ← eval frames fuel left scope
    if ← ofExcept (leftValue.decides operator) then pure leftValue
    else eval frames fuel right scope
  | fuel + 1, .unary operator operand, scope => do
    let value ← eval frames fuel operand scope
    ofExcept (value.unary operator)
  | _ + 1, .identifier name, scope => lookup scope name

/-- The effect of a statement in a scope. -/
def exec (frames : Option Nat) : (fuel : Nat) → Stmt → ScopeId → Run Flow
  | 0, _, _ => outOfFuel
  | fuel + 1, .block statements, scope => do
    let inner ← openScope scope []
    sequence (fun statement => exec frames fuel statement inner) statements
  | fuel + 1, .expression value, scope => do
    let _ ← eval frames fuel value scope
    pure .normal
  | _ + 1, .function name params body, scope => do
    define scope name.lexeme (← newFunction name params body scope)
    pure .normal
  | fuel + 1, .ifThen condition thenBranch, scope => do
    if (← eval frames fuel condition scope).isTruthy then exec frames fuel thenBranch scope
    else pure .normal
  | fuel + 1, .ifElse condition thenBranch elseBranch, scope => do
    if (← eval frames fuel condition scope).isTruthy then exec frames fuel thenBranch scope
    else exec frames fuel elseBranch scope
  | fuel + 1, .print value, scope => do
    print (← eval frames fuel value scope).text
    pure .normal
  | _ + 1, .returns _ none, _ => pure (.returned .nil)
  | fuel + 1, .returns _ (some value), scope => do
    pure (.returned (← eval frames fuel value scope))
  | fuel + 1, .var name initial, scope => do
    define scope name.lexeme (← eval frames fuel initial scope)
    pure .normal
  | fuel + 1, .whileLoop condition body, scope =>
    loop (eval frames fuel condition scope) (exec frames fuel body scope) fuel

end

end Scriptlet
