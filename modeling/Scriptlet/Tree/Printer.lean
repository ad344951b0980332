/-
# Trees as text

The written form of a tree parses back into the tree.  No parentheses are ever
added: the ones that matter are nodes of the tree.  What has to be taken care of
is that neighbouring words stay apart, so every word of a statement is followed
by a space, and so is a prefix operator that meets another one.
-/
import Scriptlet.Tree.Basic

namespace Scriptlet

/-- A literal as a script spells it.  A string is quoted with `"` unless it
holds one. -/
def Literal.written : Literal → String
  | .string value =>
    let quote := if '"' ∈ value.toList then "'" else "\""
    quote ++ value ++ quote
  | other => other.text

/-- Names or arguments with a comma and a space between them. -/
def commaSeparated (items : List String) : String := ", ".intercalate items

/-- Braces around statements, each statement after a space. -/
def braced (statements : List String) : String :=
  "\x7b" ++ String.join (statements.map (" " ++ ·)) ++ " \x7d"

namespace Expr

def isUnary : Expr → Bool
  | .unary .. => true
  | _ => false

mutual

/-- The written form of an expression. -/
def written : Expr → String
  | .assign name value => name.lexeme ++ " = " ++ value.written
  | .binary left operator right => left.written ++ " " ++ operator.lexeme ++ " " ++ right.written
  | .call callee _ arguments =>
    callee.written ++ "(" ++ commaSeparated (writtenAll arguments) ++ ")"
  | .grouping inner => "(" ++ inner.written ++ ")"
  | .literal value => value.written
  | .logical left operator right => left.written ++ " " ++ operator.lexeme ++ " " ++ right.written
  | .unary operator operand =>
    operator.lexeme ++ (if operand.isUnary then " " else "") ++ operand.written
  | .identifier name => name.lexeme

def writtenAll : List Expr → List String
  | [] => []
  | e :: es => e.written :: writtenAll es

end

end Expr

namespace Stmt

mutual

/-- The written form of a statement, on one line unless a string literal in it
has more. -/
def written : Stmt → String
  | .block statements => braced (writtenAll statements)
  | .expression value => value.written ++ ";"
  | .function name params body =>
    "fun " ++ name.lexeme ++ "(" ++ commaSeparated (params.map (·.lexeme)) ++ ") "
      ++ braced (writtenAll body)
  | .ifThen condition thenBranch => "if (" ++ condition.written ++ ") " ++ thenBranch.written
  | .ifElse condition thenBranch elseBranch =>
    "if (" ++ condition.written ++ ") " ++ thenBranch.written ++ " else " ++ elseBranch.written
  | .print value => "print " ++ value.written ++ ";"
  | .returns _ none => "return;"
  | .returns _ (some value) => "return " ++ value.written ++ ";"
  | .var name initial => "var " ++ name.lexeme ++ " = " ++ initial.written ++ ";"
  | .whileLoop condition body => "while (" ++ condition.written ++ ") " ++ body.written

def writtenAll : List Stmt → List String
  | [] => []
  | s :: ss => s.written :: writtenAll ss

end

end Stmt

/-- The written form of a program: its statements, each on a line. -/
def Program.written (program : Program) : String :=
  String.join (program.map (·.written ++ "\n"))

end Scriptlet
