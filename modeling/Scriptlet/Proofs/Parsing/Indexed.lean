/-
# Parsing in a whole list

A cursor holds the tokens before the first end-of-file token, and the line of the end.
It knows neither whether that token is there nor what stands behind it, so no rule can
make a difference of it.

Here are the same rules for a reader that can: it has the whole list, with whatever
stands behind the first end-of-file token, and the index of the token that comes next.
It looks at the token there, or at one that stands in for it if the list has come to
its end; it goes on by one token, but not from an end-of-file token; when it recovers,
it looks back at the token before it, too.  What the rules make of that is up to them.

Every round of a loop reads a token, as it does on a cursor, so no loop goes round more
often than there are tokens in the list.
-/
import Scriptlet.Tree.Parser

namespace Scriptlet

namespace Indexed

/-! ## Readers -/

/-- The state of a parse in a whole list. -/
structure Reader where
  /-- All the tokens, which no rule changes. -/
  tokens : List Token
  /-- The index of the token to be read next. -/
  index : Nat
  /-- The errors so far, oldest first. -/
  errors : List SyntaxError
deriving DecidableEq, Repr

/-- The line of the last token, or else the first line. -/
def lastLine (tokens : List Token) : Nat := tokens.getLast?.elim 1 (·.line)

namespace Reader

/-- A reader before the first token. -/
def ofTokens (tokens : List Token) : Reader := ⟨tokens, 0, []⟩

/-- The token at the index; behind the last one, an end-of-file token in its place. -/
def current (r : Reader) : Token := r.tokens[r.index]?.getD (.endOfFile (lastLine r.tokens))

def previous? (r : Reader) : Option Token :=
  if r.index = 0 then none else r.tokens[r.index - 1]?

def atEnd (r : Reader) : Bool := r.current.kind = .eof

/-- The reader behind the current token, if that does not end the script. -/
def next (r : Reader) : Reader := if r.atEnd then r else { r with index := r.index + 1 }

def record (r : Reader) (e : SyntaxError) : Reader := { r with errors := r.errors ++ [e] }

theorem index_lt {r : Reader} (h : ¬ r.atEnd) : r.index < r.tokens.length := by
  refine Nat.lt_of_not_le fun behind => h ?_
  rw [atEnd, current, List.getElem?_eq_none behind]
  rfl

theorem next_length_lt {r : Reader} (h : ¬ r.atEnd) :
    r.next.tokens.length - r.next.index < r.tokens.length - r.index := by
  rw [next, if_neg h]
  exact Nat.sub_lt_sub_left (index_lt h) (Nat.lt_add_one _)

/-- Goes on to the end, to behind a semicolon or to a token that starts a statement. -/
def skipToStatement (r : Reader) : Reader :=
  if r.atEnd then r
  else if r.previous?.any (·.kind = .semicolon) then r
  else if r.current.kind.startsStatement then r
  else skipToStatement r.next
termination_by r.tokens.length - r.index
decreasing_by exact next_length_lt (by assumption)

/-- Where to go on after an error. -/
def synchronize (r : Reader) : Reader := r.next.skipToStatement

end Reader

end Indexed

/-- A grammar rule in a whole list. -/
abbrev Indexed := EStateM SyntaxError Indexed.Reader

namespace Indexed

/-! ## Steps of a rule -/

def current : Indexed Token := fun r => .ok r.current r

def check (kind : Token.Kind) : Indexed Bool := fun r => .ok (r.current.kind = kind) r

def fail {α : Type} (cause : SyntaxError.Cause) : Indexed α :=
  fun r => .error (.atToken cause r.current) r

def failAt {α : Type} (cause : SyntaxError.Cause) (token : Token) : Indexed α :=
  fun r => .error (.atToken cause token) r

def record (cause : SyntaxError.Cause) (token : Token) : Indexed Unit :=
  fun r => .ok () (r.record (.atToken cause token))

def next : Indexed Unit := fun r => .ok () r.next

def accept? (wanted : List Token.Kind) : Indexed (Option Token) := fun r =>
  if r.current.kind ∈ wanted then .ok (some r.current) r.next else .ok none r

def expect (kind : Token.Kind) (cause : SyntaxError.Cause) : Indexed Token := do
  match ← accept? [kind] with
  | some token => pure token
  | none => fail cause

def chainWithin {α : Type} (wanted : List Token.Kind) (step : α → Token → Indexed α) :
    (rounds : Nat) → α → Indexed α
  | 0, a => pure a
  | rounds + 1, a => do
    match ← accept? wanted with
    | some token => chainWithin wanted step rounds (← step a token)
    | none => pure a

def chain {α : Type} (wanted : List Token.Kind) (step : α → Token → Indexed α) (a : α) :
    Indexed α := fun r => chainWithin wanted step r.tokens.length a r

/-- Runs a rule; when it fails, its error is recorded and the reader goes on to where a
statement may start. -/
def recovering {α : Type} (rule : Indexed α) : Indexed (Option α) := fun r =>
  match rule r with
  | .ok a r' => .ok (some a) r'
  | .error e r' => .ok none (r'.record e).synchronize

def manyWithin {α : Type} (closing : Option Token.Kind) (rule : Indexed α) :
    (rounds : Nat) → Indexed (List α)
  | 0 => pure []
  | rounds + 1 => fun r =>
    if r.atEnd ∨ closing = some r.current.kind then .ok [] r
    else (do
      let first ← recovering rule
      let others ← manyWithin closing rule rounds
      pure (first.toList ++ others) : Indexed (List α)) r

def many {α : Type} (closing : Option Token.Kind) (rule : Indexed α) : Indexed (List α) :=
  fun r => manyWithin closing rule r.tokens.length r

/-! ## Lists -/

def separated {α : Type} (item : Indexed α) (tooMany : SyntaxError.Cause) :
    Indexed (List α) := do
  let first ← item
  chain [.comma] (fun items _ => do
    if maxArguments ≤ items.length then record tooMany (← current)
    pure (items ++ [← item])) [first]

def listed {α : Type} (item : Indexed α) (tooMany : SyntaxError.Cause) :
    Indexed (List α) := do
  if ← check .rightParen then pure [] else separated item tooMany

/-! ## Expressions -/

def primary (expression : Indexed Expr) : Indexed Expr := do
  let token ← current
  match token.kind with
  | .kwFalse | .kwTrue | .kwNil | .number | .string =>
    match token.literal with
    | some value => next; pure (.literal value)
    | none => fail .literalMissing
  | .identifier => next; pure (.identifier token)
  | .leftParen =>
    next
    let inner ← expression
    let _ ← expect .rightParen .groupingNotClosed
    pure (.grouping inner)
  | _ => fail .expressionMissing

def call (expression : Indexed Expr) : Indexed Expr := do
  let callee ← primary expression
  chain [.leftParen] (fun callee _ => do
    let arguments ← listed expression .tooManyArguments
    let paren ← expect .rightParen .argumentsNotClosed
    pure (.call callee paren arguments)) callee

def prefixed (operand expression : Indexed Expr) : Indexed Expr := do
  match ← accept? [.bang, .minus] with
  | some operator => pure (.unary operator (← operand))
  | none => call expression

def infixed (operand : Indexed Expr) : List Parse.Level → Indexed Expr
  | [] => operand
  | level :: tighter => do
    let first ← infixed operand tighter
    chain level.operators (fun left operator => do
      pure (level.node left operator (← infixed operand tighter))) first

def assignmentWithin (operand : Indexed Expr) : (rounds : Nat) → Indexed Expr
  | 0 => infixed operand Parse.infixLevels
  | rounds + 1 => do
    let target ← infixed operand Parse.infixLevels
    match ← accept? [.equal] with
    | none => pure target
    | some equals =>
      let value ← assignmentWithin operand rounds
      match target with
      | .identifier name => pure (.assign name value)
      | _ => do
        record .invalidAssignmentTarget equals
        pure target

def assignment (operand : Indexed Expr) : Indexed Expr := fun r =>
  assignmentWithin operand r.tokens.length r

def operand : (levels : Nat) → Indexed Expr
  | 0 => prefixed (fail .expressionTooDeep) (fail .expressionTooDeep)
  | levels + 1 => prefixed (operand levels) (assignment (operand levels))

def expression : (levels : Nat) → Indexed Expr
  | 0 => fail .expressionTooDeep
  | levels + 1 => assignment (operand levels)

/-! ## Statements -/

def varDeclaration (expression : Indexed Expr) : Indexed Stmt := do
  let name ← expect .identifier .variableNameMissing
  let initial ← match ← accept? [.equal] with
    | some _ => expression
    | none => pure (.literal .nil)
  let _ ← expect .semicolon .semicolonAfterVariableMissing
  pure (.var name initial)

def declaration (expression : Indexed Expr) (statement : Indexed Stmt) : Indexed Stmt := do
  match ← accept? [.kwVar] with
  | some _ => varDeclaration expression
  | none => statement

def block (declaration : Indexed Stmt) : Indexed (List Stmt) := do
  let statements ← many (some .rightBrace) declaration
  let _ ← expect .rightBrace .blockNotClosed
  pure statements

def printStatement (expression : Indexed Expr) : Indexed Stmt := do
  let value ← expression
  let _ ← expect .semicolon .semicolonAfterValueMissing
  pure (.print value)

def expressionStatement (expression : Indexed Expr) : Indexed Stmt := do
  let value ← expression
  let _ ← expect .semicolon .semicolonAfterExpressionMissing
  pure (.expression value)

def ifStatement (expression : Indexed Expr) (statement : Indexed Stmt) : Indexed Stmt := do
  let _ ← expect .leftParen .ifNotOpened
  let condition ← expression
  let _ ← expect .rightParen .ifNotClosed
  let thenBranch ← statement
  match ← accept? [.kwElse] with
  | some _ => pure (.ifElse condition thenBranch (← statement))
  | none => pure (.ifThen condition thenBranch)

def whileStatement (expression : Indexed Expr) (statement : Indexed Stmt) : Indexed Stmt := do
  let _ ← expect .leftParen .whileNotOpened
  let condition ← expression
  let _ ← expect .rightParen .whileNotClosed
  pure (.whileLoop condition (← statement))

def forInitial (expression : Indexed Expr) : Indexed (Option Stmt) := do
  match ← accept? [.semicolon, .kwVar] with
  | none => some <$> expressionStatement expression
  | some token =>
    if token.kind = .semicolon then pure none else some <$> varDeclaration expression

def forStatement (expression : Indexed Expr) (statement : Indexed Stmt) : Indexed Stmt := do
  let _ ← expect .leftParen .forNotOpened
  let initial ← forInitial expression
  let condition ← if ← check .semicolon then pure (.literal (.boolean true)) else expression
  let _ ← expect .semicolon .semicolonAfterConditionMissing
  let increment ← if ← check .rightParen then pure none else some <$> expression
  let _ ← expect .rightParen .forNotClosed
  pure (Parse.forLoop initial condition increment (← statement))

def functionStatement (body : Indexed Stmt) : Indexed Stmt := do
  let name ← expect .identifier .functionNameMissing
  let _ ← expect .leftParen .parametersNotOpened
  let params ← listed (expect .identifier .parameterNameMissing) .tooManyParameters
  let _ ← expect .rightParen .parametersNotClosed
  let _ ← expect .leftBrace .bodyNotOpened
  pure (.function name params (← block body))

def returnStatement (expression : Indexed Expr) (functions : Nat) (keyword : Token) :
    Indexed Stmt := do
  if functions = 0 then record .returnOutsideFunction keyword
  let value ← if ← check .semicolon then pure none else some <$> expression
  let _ ← expect .semicolon .semicolonAfterReturnMissing
  pure (.returns keyword value)

def statementBody (expression : Indexed Expr) (statement : Nat → Indexed Stmt)
    (functions : Nat) : Indexed Stmt := do
  match ← accept? Parse.statementKinds with
  | none => expressionStatement expression
  | some token =>
    match token.kind with
    | .kwPrint => printStatement expression
    | .leftBrace => .block <$> block (declaration expression (statement functions))
    | .kwIf => ifStatement expression (statement functions)
    | .kwWhile => whileStatement expression (statement functions)
    | .kwFor => forStatement expression (statement functions)
    | .kwFun => functionStatement (declaration expression (statement (functions + 1)))
    | .kwReturn => returnStatement expression functions token
    | _ => failAt .statementUnknown token

def statement : (levels functions : Nat) → Indexed Stmt
  | 0, _ => fail .statementTooDeep
  | levels + 1, functions => statementBody (expression levels) (statement levels) functions

def program : Indexed Program :=
  many none (declaration (expression maxNesting) (statement maxNesting 0))

/-- What a whole token list is parsed as. -/
def parse (tokens : List Token) : Except (List SyntaxError) Program :=
  match program (.ofTokens tokens) with
  | .ok statements r => if r.errors = [] then .ok statements else .error r.errors
  | .error e r => .error (r.errors ++ [e])

end Indexed

end Scriptlet
