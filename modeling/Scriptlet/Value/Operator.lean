/-
# Operators and native functions on values

Everything that is computed with no scope and no output in it.  Operators look at
their operands only, native functions may also look at the clock.  A tree built
by hand may hold any token as an operator; the ones that mean nothing in their
place are faults like a wrong operand.
-/
import Scriptlet.Clock
import Scriptlet.Value.Basic
import Scriptlet.RuntimeError

namespace Scriptlet

namespace Value

/-- Applies an operation to two numbers. -/
def onNumbers (line : Nat) (operation : Float → Float → Except RuntimeError Value) :
    Value → Value → Except RuntimeError Value
  | number a, number b => operation a b
  | _, _ => .error (.invalidOperand .notNumbers line)

/-- Adds numbers and joins strings. -/
def plus (line : Nat) : Value → Value → Except RuntimeError Value
  | number a, number b => .ok (number (a + b))
  | string a, string b => .ok (string (a ++ b))
  | _, _ => .error (.invalidOperand .notNumbersOrStrings line)

/-- The value of an infix operator applied to two values. -/
def binary (operator : Token) (left right : Value) : Except RuntimeError Value :=
  let line := operator.line
  match operator.kind with
  | .plus => plus line left right
  | .minus => onNumbers line (fun a b => .ok (number (a - b))) left right
  | .star => onNumbers line (fun a b => .ok (number (a * b))) left right
  | .slash =>
    onNumbers line (fun a b =>
      if b == 0 then .error (.divisionByZero line) else .ok (number (a / b))) left right
  | .greater => onNumbers line (fun a b => .ok (boolean (decide (a > b)))) left right
  | .greaterEqual => onNumbers line (fun a b => .ok (boolean (decide (a ≥ b)))) left right
  | .less => onNumbers line (fun a b => .ok (boolean (decide (a < b)))) left right
  | .lessEqual => onNumbers line (fun a b => .ok (boolean (decide (a ≤ b)))) left right
  | .equalEqual => .ok (boolean (left.equals right))
  | .bangEqual => .ok (boolean (!left.equals right))
  | _ => .error (.invalidOperand (.unsupportedBinary operator.lexeme) line)

/-- The value of a prefix operator applied to a value. -/
def unary (operator : Token) (operand : Value) : Except RuntimeError Value :=
  match operator.kind, operand with
  | .bang, _ => .ok (boolean (!operand.isTruthy))
  | .minus, number a => .ok (number (-a))
  | .minus, _ => .error (.invalidOperand .notNumber operator.line)
  | _, _ => .error (.invalidOperand (.unsupportedUnary operator.lexeme) operator.line)

/-- Whether the left operand of `and` or `or` already decides the value. -/
def decides (operator : Token) (left : Value) : Except RuntimeError Bool :=
  match operator.kind with
  | .kwOr => .ok left.isTruthy
  | .kwAnd => .ok (!left.isTruthy)
  | _ => .error (.invalidOperand (.unsupportedLogical operator.lexeme) operator.line)

end Value

/-- The value of a native function, whatever the number of arguments. -/
def Native.apply : Native → List Value → EStateM NativeFault Clock Value
  | .clock, _ => do
    let now ← Clock.read
    pure (.number (.ofNat now))
  | .squareRoot, [.number x] => pure (.number x.sqrt)
  | .squareRoot, [other] => throw (.notNumber other.typeName)
  | .squareRoot, _ => throw .notOneArgument
  | .textOf, [value] => pure (.string value.text)
  | .textOf, _ => throw .notOneArgument

end Scriptlet
