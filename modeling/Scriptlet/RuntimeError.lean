/-
# Runtime errors

Why a run can fail.  Every error but a failing output has the line that it
reports.
-/

namespace Scriptlet

/-- Why an operator does not apply to its operands, or at all. -/
inductive OperandFault where
  | notNumber
  | notNumbers
  | notNumbersOrStrings
  | unsupportedBinary (lexeme : String)
  | unsupportedLogical (lexeme : String)
  | unsupportedUnary (lexeme : String)
deriving DecidableEq, Repr

def OperandFault.message : OperandFault → String
  | notNumber => "Operand must be a number."
  | notNumbers => "Operands must be numbers."
  | notNumbersOrStrings => "Operands must be two numbers or two strings."
  | unsupportedBinary lexeme => "Unsupported binary operator '" ++ lexeme ++ "'."
  | unsupportedLogical lexeme => "Unsupported logical operator '" ++ lexeme ++ "'."
  | unsupportedUnary lexeme => "Unsupported unary operator '" ++ lexeme ++ "'."

/-- Why a native function refuses its arguments. -/
inductive NativeFault where
  | notNumber (typeName : String)
  | notOneArgument
deriving DecidableEq, Repr

def NativeFault.message : NativeFault → String
  | notNumber typeName => "Expected number argument, got " ++ typeName ++ "."
  | notOneArgument => "Expected exactly one argument."

inductive RuntimeError where
  | undefinedVariable (name : String) (line : Nat)
  | arityMismatch (expected found line : Nat)
  | invalidOperand (fault : OperandFault) (line : Nat)
  | divisionByZero (line : Nat)
  | notCallable (line : Nat)
  | stackOverflow (line : Nat)
  | native (name : String) (fault : NativeFault) (line : Nat)
  /-- The output did not take what was printed. -/
  | output (reason : String)
deriving DecidableEq, Repr

namespace RuntimeError

/-- What is said about a name that no scope in reach defines. -/
def undefinedText (name : String) : String := "Undefined variable '" ++ name ++ "'."

/-- The line that the error reports. -/
def line? : RuntimeError → Option Nat
  | undefinedVariable _ line
  | arityMismatch _ _ line
  | invalidOperand _ line
  | divisionByZero line
  | notCallable line
  | stackOverflow line
  | native _ _ line => some line
  | output _ => none

/-- What happened, without the line. -/
def description : RuntimeError → String
  | undefinedVariable name _ => undefinedText name
  | arityMismatch expected found _ => s!"Expected {expected} arguments but got {found}."
  | invalidOperand fault _ => fault.message
  | divisionByZero _ => "Division by zero."
  | notCallable _ => "Can only call functions."
  | stackOverflow _ => "Stack overflow."
  | native name fault _ => "Error in native function '" ++ name ++ "': " ++ fault.message
  | output reason => "Failed to write program output: " ++ reason

def message (e : RuntimeError) : String :=
  match e.line? with
  | some line => s!"[line {line}] " ++ e.description
  | none => e.description

end RuntimeError

end Scriptlet
