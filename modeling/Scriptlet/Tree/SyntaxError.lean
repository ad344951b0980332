/-
# Syntax errors

What a parse reports: a cause, the token at which it was noticed, and that
token's line.  The wording of all of them is in `SyntaxError.Cause.message`.
-/
import Scriptlet.Tree.Basic

namespace Scriptlet

namespace SyntaxError

/-- What is wrong where an error is reported. -/
inductive Cause where
  | variableNameMissing
  | semicolonAfterVariableMissing
  | semicolonAfterValueMissing
  | semicolonAfterExpressionMissing
  | semicolonAfterConditionMissing
  | semicolonAfterReturnMissing
  | blockNotClosed
  | ifNotOpened
  | ifNotClosed
  | whileNotOpened
  | whileNotClosed
  | forNotOpened
  | forNotClosed
  | functionNameMissing
  | parametersNotOpened
  | parameterNameMissing
  | parametersNotClosed
  | bodyNotOpened
  | argumentsNotClosed
  | groupingNotClosed
  | literalMissing
  | expressionMissing
  | statementUnknown
  | tooManyParameters
  | tooManyArguments
  | statementTooDeep
  | expressionTooDeep
  | returnOutsideFunction
  | invalidAssignmentTarget
deriving DecidableEq, Repr

def Cause.message : Cause → String
  | variableNameMissing => "Expect variable name."
  | semicolonAfterVariableMissing => "Expect ';' after variable declaration."
  | semicolonAfterValueMissing => "Expect ';' after value."
  | semicolonAfterExpressionMissing => "Expect ';' after expression."
  | semicolonAfterConditionMissing => "Expect ';' after loop condition."
  | semicolonAfterReturnMissing => "Expect ';' after return value."
  | blockNotClosed => "Expect '\x7d' after block."
  | ifNotOpened => "Expect '(' after 'if'."
  | ifNotClosed => "Expect ')' after if condition."
  | whileNotOpened => "Expect '(' after 'while'."
  | whileNotClosed => "Expect ')' after condition."
  | forNotOpened => "Expect '(' after 'for'."
  | forNotClosed => "Expect ')' after for clauses."
  | functionNameMissing => "Expect function name."
  | parametersNotOpened => "Expect '(' after function name."
  | parameterNameMissing => "Expect parameter name."
  | parametersNotClosed => "Expect ')' after parameters."
  | bodyNotOpened => "Expect '\x7b' before function body."
  | argumentsNotClosed => "Expect ')' after arguments."
  | groupingNotClosed => "Expect ')' after expression."
  | literalMissing => "Expect literal value."
  | expressionMissing => "Expect expression."
  | statementUnknown => "Unexpected token type when parsing statement."
  | tooManyParameters => "Can't have more than 255 parameters."
  | tooManyArguments => "Can't have more than 255 arguments."
  | statementTooDeep => "Statement nesting too deep."
  | expressionTooDeep => "Expression nesting too deep."
  | returnOutsideFunction => "Can't return from top-level code."
  | invalidAssignmentTarget => "Invalid assignment target."

/-- The token at which an error is reported. -/
inductive Place where
  | atEnd
  | atLexeme (lexeme : String)
deriving DecidableEq, Repr

def Place.text : Place → String
  | atEnd => "at end"
  | atLexeme lexeme => "at '" ++ lexeme ++ "'"

end SyntaxError

/-- A violation of the grammar. -/
structure SyntaxError where
  line : Nat
  place : SyntaxError.Place
  cause : SyntaxError.Cause
deriving DecidableEq, Repr

namespace SyntaxError

/-- The error that reports `cause` at a token. -/
def atToken (cause : Cause) (token : Token) : SyntaxError :=
  ⟨token.line, if token.kind = .eof then .atEnd else .atLexeme token.lexeme, cause⟩

def message (e : SyntaxError) : String :=
  s!"[line {e.line}] Error " ++ e.place.text ++ ": " ++ e.cause.message

end SyntaxError

end Scriptlet
