/-
# Parsing with counters

The rules of the grammar are given the levels that they may still open, and the
number of function bodies open around them, as arguments: no rule can come back with
another number than it was called with.  Here are the same rules with two counters
instead, which all of them share and some change: one goes up where a level opens and
down where it closes, the other does so for function bodies.  Between the two a rule
runs that may fail, and behind it the counter goes down in either case.

What the counters should count is kept as well: a list of the calls that are open.
And whatever a rule does is entered in a trace, with the counters, the open calls
and the errors so far as they stand at that moment.  Neither the calls nor the trace
decide anything.  What it means that the counters are right is a property of the
moments (`Moment.Exact`).

A rule that nests inside itself calls itself by way of the counter, so nothing gets
smaller from call to call; the recursion is on fuel, of which there is always enough.
-/
import Scriptlet.Tree.Parser

namespace Scriptlet

namespace Tally

/-! ## What is counted -/

/-- The rules of the grammar, and recovery. -/
inductive Rule where
  | recovery
  | declaration
  | varDeclaration
  | statement
  | statementBody
  | printStatement
  | expressionStatement
  | block
  | ifStatement
  | whileStatement
  | forStatement
  | forInitial
  | functionStatement
  | returnStatement
  | expression
  | assignment
  | infixed
  | prefixed
  | call
  | listed
  | primary
deriving DecidableEq, Repr

/-- What may be open: a level, the body of a function, or a rule as such. -/
inductive Call where
  | level
  | functionBody
  | rule (rule : Rule)
deriving DecidableEq, Repr

/-- The levels and the function bodies that are open. -/
structure Counters where
  nesting : Nat
  functionDepth : Nat
deriving DecidableEq, Repr

namespace Counters

def deeper (counters : Counters) : Counters :=
  { counters with nesting := counters.nesting + 1 }

def shallower (counters : Counters) : Counters :=
  { counters with nesting := counters.nesting - 1 }

def intoBody (counters : Counters) : Counters :=
  { counters with functionDepth := counters.functionDepth + 1 }

def outOfBody (counters : Counters) : Counters :=
  { counters with functionDepth := counters.functionDepth - 1 }

end Counters

/-! ## What happens -/

/-- What a rule does. -/
inductive Event where
  /-- It looks at the token that comes next, and does not read it yet. -/
  | looks (token : Token)
  | reads (token : Token)
  /-- It records an error and goes on. -/
  | records (e : SyntaxError)
  | fails (e : SyntaxError)
  /-- Recovery records the error of a rule and skips tokens. -/
  | discards (e : SyntaxError) (skipped : List Token)
  /-- It has been decided whether to record that the return is outside of functions;
  the errors are those before. -/
  | judges (keyword : Token) (before : List SyntaxError)
  /-- A call returns, be it with a failure; the counters are those when it began. -/
  | ends (call : Call) (entry : Counters)
deriving DecidableEq, Repr

/-- An event and how things stood when it happened. -/
structure Moment where
  event : Event
  counters : Counters
  /-- The calls that are open, innermost first. -/
  calls : List Call
  errors : List SyntaxError
deriving DecidableEq, Repr

namespace Moment

/-- The tokens that a rule reads at the moment. -/
def read (m : Moment) : List Token :=
  match m.event with
  | .reads token => [token]
  | _ => []

/-- The tokens that are no longer to be read then: a rule reads them or recovery
skips them. -/
def taken (m : Moment) : List Token :=
  match m.event with
  | .reads token => [token]
  | .discards _ skipped => skipped
  | _ => []

/-- The keywords of the returns that are judged at the moment. -/
def judged (m : Moment) : List Token :=
  match m.event with
  | .judges keyword _ => [keyword]
  | _ => []

/-- A rule reports the error at the moment. -/
def Reports (m : Moment) (e : SyntaxError) : Prop :=
  m.event = .records e ∨ m.event = .fails e

end Moment

/-- The state of a parse with counters. -/
structure Reader where
  cursor : Cursor
  counters : Counters
  calls : List Call
  /-- What has happened, the oldest first. -/
  trace : List Moment
deriving DecidableEq, Repr

namespace Reader

def ofTokens (tokens : List Token) : Reader := ⟨.ofTokens tokens, ⟨0, 0⟩, [], []⟩

def log (r : Reader) (event : Event) : Reader :=
  { r with trace := r.trace ++ [⟨event, r.counters, r.calls, r.cursor.errors⟩] }

/-- Records an error. -/
def record (r : Reader) (e : SyntaxError) : Reader :=
  { r with cursor := { r.cursor with errors := r.cursor.errors ++ [e] } }.log (.records e)

end Reader

end Tally

/-- A grammar rule with counters. -/
abbrev Tally := EStateM SyntaxError Tally.Reader

namespace Tally

/-! ## Steps of a rule -/

/-- Runs a rule in a call, with the counters one `up` inside and one `down` behind
it, whether it fails or not. -/
def calling {α : Type} (call : Call) (up down : Counters → Counters) (body : Tally α) :
    Tally α := fun r =>
  let back (r' : Reader) : Reader :=
    { r' with counters := down r'.counters, calls := r.calls }.log (.ends call r.counters)
  match body { r with counters := up r.counters, calls := call :: r.calls } with
  | .ok a r' => .ok a (back r')
  | .error e r' => .error e (back r')

/-- Runs a rule as a call that leaves the counters to what it calls. -/
def within {α : Type} (rule : Rule) (body : Tally α) : Tally α :=
  calling (.rule rule) id id body

def current : Tally Token := fun r => .ok r.cursor.current (r.log (.looks r.cursor.current))

def check (kind : Token.Kind) : Tally Bool := do
  let token ← current
  pure (token.kind = kind)

def fail {α : Type} (cause : SyntaxError.Cause) : Tally α := fun r =>
  .error (.atToken cause r.cursor.current) (r.log (.fails (.atToken cause r.cursor.current)))

def failAt {α : Type} (cause : SyntaxError.Cause) (token : Token) : Tally α := fun r =>
  .error (.atToken cause token) (r.log (.fails (.atToken cause token)))

def record (cause : SyntaxError.Cause) (token : Token) : Tally Unit := fun r =>
  .ok () (r.record (.atToken cause token))

def next : Tally Token := fun r =>
  .ok r.cursor.current ({ r with cursor := { r.cursor with rest := r.cursor.rest.tail } }.log
    (.reads r.cursor.current))

def accept? (wanted : List Token.Kind) : Tally (Option Token) := fun r =>
  match r.cursor.rest with
  | [] => .ok none (r.log (.looks r.cursor.current))
  | token :: rest =>
    if token.kind ∈ wanted then
      .ok (some token) ({ r with cursor := { r.cursor with rest := rest } }.log (.reads token))
    else .ok none (r.log (.looks token))

def expect (kind : Token.Kind) (cause : SyntaxError.Cause) : Tally Token := do
  match ← accept? [kind] with
  | some token => pure token
  | none => fail cause

def chainWithin {α : Type} (wanted : List Token.Kind) (step : α → Token → Tally α) :
    (rounds : Nat) → α → Tally α
  | 0, a => pure a
  | rounds + 1, a => do
    match ← accept? wanted with
    | some token => chainWithin wanted step rounds (← step a token)
    | none => pure a

def chain {α : Type} (wanted : List Token.Kind) (step : α → Token → Tally α) (a : α) :
    Tally α := fun r => chainWithin wanted step r.cursor.size a r

/-- The tokens that recovery skips. -/
def skipped (tokens : List Token) : List Token :=
  tokens.take (tokens.length - (synchronize tokens).length)

/-- Where a reader goes on behind a rule that has failed. -/
def Reader.recover (r : Reader) (e : SyntaxError) : Reader :=
  { r with cursor :=
    { r.cursor with rest := synchronize r.cursor.rest, errors := r.cursor.errors ++ [e] } }.log
    (.discards e (skipped r.cursor.rest))

def recovering {α : Type} (rule : Tally α) : Tally (Option α) :=
  within .recovery fun r =>
    match rule r with
    | .ok a r' => .ok (some a) r'
    | .error e r' => .ok none (r'.recover e)

def manyWithin {α : Type} (closing : Option Token.Kind) (rule : Tally α) :
    (rounds : Nat) → Tally (List α)
  | 0 => pure []
  | rounds + 1 => fun r =>
    match r.cursor.rest with
    | [] => .ok [] r
    | token :: _ =>
      if closing = some token.kind then .ok [] r
      else (do
        let first ← recovering rule
        let others ← manyWithin closing rule rounds
        pure (first.toList ++ others) : Tally (List α)) r

def many {α : Type} (closing : Option Token.Kind) (rule : Tally α) : Tally (List α) :=
  fun r => manyWithin closing rule r.cursor.size r

/-- Runs a rule one level deeper, unless as many are open as may be. -/
def nested {α : Type} (tooDeep : SyntaxError.Cause) (rule : Tally α) : Tally α := fun r =>
  if maxNesting ≤ r.counters.nesting then fail tooDeep r
  else calling .level Counters.deeper Counters.shallower rule r

/-! ## Lists -/

def separated {α : Type} (item : Tally α) (tooMany : SyntaxError.Cause) :
    Tally (List α) := do
  let first ← item
  chain [.comma] (fun items _ => do
    if maxArguments ≤ items.length then record tooMany (← current)
    pure (items ++ [← item])) [first]

def listed {α : Type} (item : Tally α) (tooMany : SyntaxError.Cause) : Tally (List α) :=
  within .listed do
    if ← check .rightParen then pure [] else separated item tooMany

/-! ## Expressions -/

def primary (expression : Tally Expr) : Tally Expr :=
  within .primary do
    let token ← current
    match token.kind with
    | .kwFalse | .kwTrue | .kwNil | .number | .string =>
      match token.literal with
      | some value => let _ ← next; pure (.literal value)
      | none => fail .literalMissing
    | .identifier => let _ ← next; pure (.identifier token)
    | .leftParen =>
      let _ ← next
      let inner ← expression
      let _ ← expect .rightParen .groupingNotClosed
      pure (.grouping inner)
    | _ => fail .expressionMissing

def call (expression : Tally Expr) : Tally Expr :=
  within .call do
    let callee ← primary expression
    chain [.leftParen] (fun callee _ => do
      let arguments ← listed expression .tooManyArguments
      let paren ← expect .rightParen .argumentsNotClosed
      pure (.call callee paren arguments)) callee

def prefixed (operand expression : Tally Expr) : Tally Expr :=
  within .prefixed do
    match ← accept? [.bang, .minus] with
    | some operator => pure (.unary operator (← operand))
    | none => call expression

def infixed (operand : Tally Expr) : List Parse.Level → Tally Expr
  | [] => operand
  | level :: tighter => within .infixed do
    let first ← infixed operand tighter
    chain level.operators (fun left operator => do
      pure (level.node left operator (← infixed operand tighter))) first

def assignmentWithin (operand : Tally Expr) : (rounds : Nat) → Tally Expr
  | 0 => within .assignment (infixed operand Parse.infixLevels)
  | rounds + 1 => within .assignment do
    let target ← infixed operand Parse.infixLevels
    match ← accept? [.equal] with
    | none => pure target
    | some equals =>
      let value ← assignmentWithin operand rounds
      match target with
      | .identifier name => pure (.assign name value)
      | _ => do
        record .invalidAssignmentTarget equals
        pure target

def assignment (operand : Tally Expr) : Tally Expr := fun r =>
  assignmentWithin operand r.cursor.size r

def expression (operand : Tally Expr) : Tally Expr :=
  within .expression (nested .expressionTooDeep (assignment operand))

/-- The operand of an infix operator. -/
def operand : (fuel : Nat) → Tally Expr
  | 0 => fail .expressionTooDeep
  | fuel + 1 => prefixed (nested .expressionTooDeep (operand fuel)) (expression (operand fuel))

/-! ## Statements -/

def varDeclaration (expression : Tally Expr) : Tally Stmt :=
  within .varDeclaration do
    let name ← expect .identifier .variableNameMissing
    let initial ← match ← accept? [.equal] with
      | some _ => expression
      | none => pure (.literal .nil)
    let _ ← expect .semicolon .semicolonAfterVariableMissing
    pure (.var name initial)

def declaration (expression : Tally Expr) (statement : Tally Stmt) : Tally Stmt :=
  within .declaration do
    match ← accept? [.kwVar] with
    | some _ => varDeclaration expression
    | none => statement

def block (declaration : Tally Stmt) : Tally (List Stmt) :=
  within .block do
    let statements ← many (some .rightBrace) declaration
    let _ ← expect .rightBrace .blockNotClosed
    pure statements

def printStatement (expression : Tally Expr) : Tally Stmt :=
  within .printStatement do
    let value ← expression
    let _ ← expect .semicolon .semicolonAfterValueMissing
    pure (.print value)

def expressionStatement (expression : Tally Expr) : Tally Stmt :=
  within .expressionStatement do
    let value ← expression
    let _ ← expect .semicolon .semicolonAfterExpressionMissing
    pure (.expression value)

def ifStatement (expression : Tally Expr) (statement : Tally Stmt) : Tally Stmt :=
  within .ifStatement do
    let _ ← expect .leftParen .ifNotOpened
    let condition ← expression
    let _ ← expect .rightParen .ifNotClosed
    let thenBranch ← statement
    match ← accept? [.kwElse] with
    | some _ => pure (.ifElse condition thenBranch (← statement))
    | none => pure (.ifThen condition thenBranch)

def whileStatement (expression : Tally Expr) (statement : Tally Stmt) : Tally Stmt :=
  within .whileStatement do
    let _ ← expect .leftParen .whileNotOpened
    let condition ← expression
    let _ ← expect .rightParen .whileNotClosed
    pure (.whileLoop condition (← statement))

def forInitial (expression : Tally Expr) : Tally (Option Stmt) :=
  within .forInitial do
    match ← accept? [.semicolon, .kwVar] with
    | none => some <$> expressionStatement expression
    | some token =>
      if token.kind = .semicolon then pure none else some <$> varDeclaration expression

def forStatement (expression : Tally Expr) (statement : Tally Stmt) : Tally Stmt :=
  within .forStatement do
    let _ ← expect .leftParen .forNotOpened
    let initial ← forInitial expression
    let condition ←
      if ← check .semicolon then pure (.literal (.boolean true)) else expression
    let _ ← expect .semicolon .semicolonAfterConditionMissing
    let increment ← if ← check .rightParen then pure none else some <$> expression
    let _ ← expect .rightParen .forNotClosed
    pure (Parse.forLoop initial condition increment (← statement))

/-- A function after its `fun`.  The body is open once its brace has been read. -/
def functionStatement (declaration : Tally Stmt) : Tally Stmt :=
  within .functionStatement do
    let name ← expect .identifier .functionNameMissing
    let _ ← expect .leftParen .parametersNotOpened
    let params ← listed (expect .identifier .parameterNameMissing) .tooManyParameters
    let _ ← expect .rightParen .parametersNotClosed
    let _ ← expect .leftBrace .bodyNotOpened
    let body ← calling .functionBody Counters.intoBody Counters.outOfBody (block declaration)
    pure (.function name params body)

/-- Records that a return is outside of functions if the counter says so. -/
def judge (keyword : Token) : Tally Unit := fun r =>
  let judged :=
    if r.counters.functionDepth = 0 then r.record (.atToken .returnOutsideFunction keyword)
    else r
  .ok () (judged.log (.judges keyword r.cursor.errors))

def returnStatement (expression : Tally Expr) (keyword : Token) : Tally Stmt :=
  within .returnStatement do
    judge keyword
    let value ← if ← check .semicolon then pure none else some <$> expression
    let _ ← expect .semicolon .semicolonAfterReturnMissing
    pure (.returns keyword value)

def statementBody (expression : Tally Expr) (statement : Tally Stmt) : Tally Stmt :=
  within .statementBody do
    match ← accept? Parse.statementKinds with
    | none => expressionStatement expression
    | some token =>
      match token.kind with
      | .kwPrint => printStatement expression
      | .leftBrace => .block <$> block (declaration expression statement)
      | .kwIf => ifStatement expression statement
      | .kwWhile => whileStatement expression statement
      | .kwFor => forStatement expression statement
      | .kwFun => functionStatement (declaration expression statement)
      | .kwReturn => returnStatement expression token
      | _ => failAt .statementUnknown token

def statement : (fuel : Nat) → Tally Stmt
  | 0 => fail .statementTooDeep
  | fuel + 1 => within .statement
      (nested .statementTooDeep (statementBody (expression (operand fuel)) (statement fuel)))

/-- More fuel than levels may be open: it does not run out before they do. -/
def enough : Nat := maxNesting + 1

def program : Tally Program :=
  many none (declaration (expression (operand enough)) (statement enough))

/-- Parses a token list; what remains is the reader in the end. -/
def parse (tokens : List Token) : Except (List SyntaxError) Program × Reader :=
  match program (.ofTokens tokens) with
  | .ok statements r =>
    (if r.cursor.errors = [] then .ok statements else .error r.cursor.errors, r)
  | .error e r => (.error (r.cursor.errors ++ [e]), r)

/-! ## When the counters are right -/

/-- The causes of errors about nesting. -/
def tooDeep : List SyntaxError.Cause := [.statementTooDeep, .expressionTooDeep]

namespace Moment

/-- How many levels are open at the moment. -/
def levels (m : Moment) : Nat := m.calls.count .level

/-- How many function bodies are open at the moment. -/
def bodies (m : Moment) : Nat := m.calls.count .functionBody

/-- The keywords of the returns that are judged at the moment and are outside of
functions. -/
def outside (m : Moment) : List Token := if m.bodies = 0 then m.judged else []

/-- What happens at the moment is right by the open calls. -/
def Right (m : Moment) : Prop :=
  match m.event with
  | .looks _ | .reads _ => True
  | .records e => e.cause ∉ tooDeep ∧ (e.cause = .returnOutsideFunction → m.bodies = 0)
  | .fails e => (e.cause ∈ tooDeep → m.levels = maxNesting) ∧ e.cause ≠ .returnOutsideFunction
  | .discards e skipped => e.cause ≠ .returnOutsideFunction ∧
      ∀ token ∈ skipped, token.kind = .kwReturn → e = .atToken e.cause token
  | .judges keyword before => m.errors =
      before ++ if m.bodies = 0 then [.atToken .returnOutsideFunction keyword] else []
  | .ends _ entry => m.counters = entry

/-- The counters are the numbers of open levels and of open function bodies, no more
levels are open than may be, and what happens is right. -/
structure Exact (m : Moment) : Prop where
  nesting : m.counters.nesting = m.levels
  limit : m.counters.nesting ≤ maxNesting
  functionDepth : m.counters.functionDepth = m.bodies
  right : m.Right

end Moment

end Tally

end Scriptlet
