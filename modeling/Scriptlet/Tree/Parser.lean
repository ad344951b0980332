/-
# The grammar

Each rule of the grammar is a function that takes the rules it nests as
arguments.  Rules that nest inside themselves (statements, expressions and
prefix operators) count levels down: a rule is given the number of levels that
it may still open, and with none left it fails.  So the limit on nesting, which
the language has anyway, is also what the recursion is on.
-/
import Scriptlet.Tree.Cursor

namespace Scriptlet

/-- The levels of statements, expressions and prefix operators that may be open
at once. -/
def maxNesting : Nat := 256

/-- The most parameters a function and arguments a call may have. -/
def maxArguments : Nat := 255

namespace Parse

/-- One or more items with commas between them.  An item past the limit is
reported where it starts, and read all the same. -/
def separated {α : Type} (item : Parse α) (tooMany : SyntaxError.Cause) : Parse (List α) := do
  let first ← item
  chain [.comma] (fun items _ => do
    if maxArguments ≤ items.length then record tooMany (← current)
    pure (items ++ [← item])) [first]

/-- Items with commas between them up to a closing parenthesis, which is left
to be read. -/
def listed {α : Type} (item : Parse α) (tooMany : SyntaxError.Cause) : Parse (List α) := do
  if ← check .rightParen then pure [] else separated item tooMany

/-! ## Expressions -/

/-- A literal, a name or an expression in parentheses. -/
def primary (expression : Parse Expr) : Parse Expr := do
  let token ← current
  match token.kind with
  | .kwFalse | .kwTrue | .kwNil | .number | .string =>
    match token.literal with
    | some value => let _ ← next; pure (.literal value)
    | none => fail .literalMissing
  | .identifier => let _ ← next; pure (.identifier token)
  | .leftParen =>
    let _ ← next
    let inner ← expression
    let _ ← expect .rightParen .groupingNotClosed
    pure (.grouping inner)
  | _ => fail .expressionMissing

/-- A primary expression and the argument lists that follow it. -/
def call (expression : Parse Expr) : Parse Expr := do
  let callee ← primary expression
  chain [.leftParen] (fun callee _ => do
    let arguments ← listed expression .tooManyArguments
    let paren ← expect .rightParen .argumentsNotClosed
    pure (.call callee paren arguments)) callee

/-- A call behind any number of prefix operators; `operand` is what a prefix
operator applies to. -/
def prefixed (operand expression : Parse Expr) : Parse Expr := do
  match ← accept? [.bang, .minus] with
  | some operator => pure (.unary operator (← operand))
  | none => call expression

/-- The operators of one precedence and the node that joins their operands. -/
structure Level where
  operators : List Token.Kind
  node : Expr → Token → Expr → Expr

/-- The infix operators, from the loosest to the tightest. -/
def infixLevels : List Level :=
  [⟨[.kwOr], .logical⟩,
   ⟨[.kwAnd], .logical⟩,
   ⟨[.bangEqual, .equalEqual], .binary⟩,
   ⟨[.greater, .greaterEqual, .less, .lessEqual], .binary⟩,
   ⟨[.minus, .plus], .binary⟩,
   ⟨[.slash, .star], .binary⟩]

/-- Operands joined by the operators of the given levels.  Operators of one
level group to the left. -/
def infixed (operand : Parse Expr) : List Level → Parse Expr
  | [] => operand
  | level :: tighter => do
    let first ← infixed operand tighter
    chain level.operators (fun left operator => do
      pure (level.node left operator (← infixed operand tighter))) first

/-- Assignments group to the right.  What stands left of `=` is read as an
expression first; when it is not a name, that is reported and the assignment
dropped. -/
def assignmentWithin (operand : Parse Expr) : (rounds : Nat) → Parse Expr
  | 0 => infixed operand infixLevels
  | rounds + 1 => do
    let target ← infixed operand infixLevels
    match ← accept? [.equal] with
    | none => pure target
    | some equals =>
      let value ← assignmentWithin operand rounds
      match target with
      | .identifier name => pure (.assign name value)
      | _ => do
        record .invalidAssignmentTarget equals
        pure target

def assignment (operand : Parse Expr) : Parse Expr := fun c =>
  assignmentWithin operand c.size c

/-- The operand of an infix operator, under `levels` more levels of nesting. -/
def operand : (levels : Nat) → Parse Expr
  | 0 => prefixed (fail .expressionTooDeep) (fail .expressionTooDeep)
  | levels + 1 => prefixed (operand levels) (assignment (operand levels))

/-- An expression, which opens one of the `levels` itself. -/
def expression : (levels : Nat) → Parse Expr
  | 0 => fail .expressionTooDeep
  | levels + 1 => assignment (operand levels)

/-! ## Statements -/

/-- A variable declaration after its `var`.  Without an initial value the
variable starts as `nil`. -/
def varDeclaration (expression : Parse Expr) : Parse Stmt := do
  let name ← expect .identifier .variableNameMissing
  let initial ← match ← accept? [.equal] with
    | some _ => expression
    | none => pure (.literal .nil)
  let _ ← expect .semicolon .semicolonAfterVariableMissing
  pure (.var name initial)

/-- A variable declaration or a statement. -/
def declaration (expression : Parse Expr) (statement : Parse Stmt) : Parse Stmt := do
  match ← accept? [.kwVar] with
  | some _ => varDeclaration expression
  | none => statement

/-- The declarations of a block after its opening brace. -/
def block (declaration : Parse Stmt) : Parse (List Stmt) := do
  let statements ← many (some .rightBrace) declaration
  let _ ← expect .rightBrace .blockNotClosed
  pure statements

def printStatement (expression : Parse Expr) : Parse Stmt := do
  let value ← expression
  let _ ← expect .semicolon .semicolonAfterValueMissing
  pure (.print value)

def expressionStatement (expression : Parse Expr) : Parse Stmt := do
  let value ← expression
  let _ ← expect .semicolon .semicolonAfterExpressionMissing
  pure (.expression value)

/-- An `else` belongs to the nearest `if` before it. -/
def ifStatement (expression : Parse Expr) (statement : Parse Stmt) : Parse Stmt := do
  let _ ← expect .leftParen .ifNotOpened
  let condition ← expression
  let _ ← expect .rightParen .ifNotClosed
  let thenBranch ← statement
  match ← accept? [.kwElse] with
  | some _ => pure (.ifElse condition thenBranch (← statement))
  | none => pure (.ifThen condition thenBranch)

def whileStatement (expression : Parse Expr) (statement : Parse Stmt) : Parse Stmt := do
  let _ ← expect .leftParen .whileNotOpened
  let condition ← expression
  let _ ← expect .rightParen .whileNotClosed
  pure (.whileLoop condition (← statement))

/-- What a `for` loop means: the increment runs after the body, in a block with
it, and the loop stands in a block behind its initial statement. -/
def forLoop (initial : Option Stmt) (condition : Expr) (increment : Option Expr)
    (body : Stmt) : Stmt :=
  let round := match increment with
    | some increment => .block [body, .expression increment]
    | none => body
  let loop := .whileLoop condition round
  match initial with
  | some initial => .block [initial, loop]
  | none => loop

/-- The first clause of a `for` loop with its semicolon. -/
def forInitial (expression : Parse Expr) : Parse (Option Stmt) := do
  match ← accept? [.semicolon, .kwVar] with
  | none => some <$> expressionStatement expression
  | some token =>
    if token.kind = .semicolon then pure none else some <$> varDeclaration expression

/-- Each clause of a `for` loop may be left out; without a condition the loop
runs on. -/
def forStatement (expression : Parse Expr) (statement : Parse Stmt) : Parse Stmt := do
  let _ ← expect .leftParen .forNotOpened
  let initial ← forInitial expression
  let condition ← if ← check .semicolon then pure (.literal (.boolean true)) else expression
  let _ ← expect .semicolon .semicolonAfterConditionMissing
  let increment ← if ← check .rightParen then pure none else some <$> expression
  let _ ← expect .rightParen .forNotClosed
  pure (forLoop initial condition increment (← statement))

/-- A function after its `fun`; `body` reads a declaration of its body. -/
def functionStatement (body : Parse Stmt) : Parse Stmt := do
  let name ← expect .identifier .functionNameMissing
  let _ ← expect .leftParen .parametersNotOpened
  let params ← listed (expect .identifier .parameterNameMissing) .tooManyParameters
  let _ ← expect .rightParen .parametersNotClosed
  let _ ← expect .leftBrace .bodyNotOpened
  pure (.function name params (← block body))

/-- A return after its keyword.  With no function open around it, that is
reported at the keyword. -/
def returnStatement (expression : Parse Expr) (functions : Nat) (keyword : Token) :
    Parse Stmt := do
  if functions = 0 then record .returnOutsideFunction keyword
  let value ← if ← check .semicolon then pure none else some <$> expression
  let _ ← expect .semicolon .semicolonAfterReturnMissing
  pure (.returns keyword value)

/-- The kinds of token that say which statement follows. -/
def statementKinds : List Token.Kind :=
  [.kwPrint, .leftBrace, .kwIf, .kwWhile, .kwFor, .kwFun, .kwReturn]

/-- A statement by its first token; `functions` is the number of function
bodies open around it. -/
def statementBody (expression : Parse Expr) (statement : Nat → Parse Stmt)
    (functions : Nat) : Parse Stmt := do
  match ← accept? statementKinds with
  | none => expressionStatement expression
  | some token =>
    match token.kind with
    | .kwPrint => printStatement expression
    | .leftBrace => .block <$> block (declaration expression (statement functions))
    | .kwIf => ifStatement expression (statement functions)
    | .kwWhile => whileStatement expression (statement functions)
    | .kwFor => forStatement expression (statement functions)
    | .kwFun => functionStatement (declaration expression (statement (functions + 1)))
    | .kwReturn => returnStatement expression functions token
    | _ => failAt .statementUnknown token

/-- A statement, which opens one of the `levels` itself. -/
def statement : (levels functions : Nat) → Parse Stmt
  | 0, _ => fail .statementTooDeep
  | levels + 1, functions => statementBody (expression levels) (statement levels) functions

/-- All declarations up to the end of the tokens. -/
def program : Parse Program :=
  many none (declaration (expression maxNesting) (statement maxNesting 0))

end Parse

/-- The program that a token list spells, or every error in it. -/
def Program.parse (tokens : List Token) : Except (List SyntaxError) Program :=
  match Parse.program (Cursor.ofTokens tokens) with
  | .ok statements c => if c.errors = [] then .ok statements else .error c.errors
  | .error e c => .error (c.errors ++ [e])

end Scriptlet
