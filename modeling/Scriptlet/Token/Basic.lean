/-
# Tokens

A token is one word or sign of a script: what kind it is, how it was spelled,
the value if it is a literal, and the line on which its spelling ends.  The
parser looks at kinds only; spellings are names, and are quoted in messages.
-/
import Scriptlet.Decimal.Shortest

namespace Scriptlet

/-- The values that can be written down in a script. -/
inductive Literal where
  | nil
  | boolean (value : Bool)
  | number (value : Float)
  | string (value : String)
deriving DecidableEq, Repr

/-- A literal as `print` would show it; strings without quotes. -/
def Literal.text : Literal → String
  | .nil => "nil"
  | .boolean true => "true"
  | .boolean false => "false"
  | .number value => numberText value
  | .string value => value

namespace Token

/-- The kinds of token.  The reserved words are marked `kw`; `eof` stands
after the last token of a script. -/
inductive Kind where
  | leftParen | rightParen | leftBrace | rightBrace
  | comma | dot | minus | plus | semicolon | slash | star
  | bang | bangEqual | equal | equalEqual
  | greater | greaterEqual | less | lessEqual
  | identifier | string | number
  | kwAnd | kwClass | kwElse | kwFalse | kwFun | kwFor | kwIf | kwNil | kwOr
  | kwPrint | kwReturn | kwSuper | kwThis | kwTrue | kwVar | kwWhile
  | eof
deriving DecidableEq, Repr

namespace Kind

/-- The name under which a token listing shows the kind. -/
def name : Kind → String
  | leftParen => "LeftParen"
  | rightParen => "RightParen"
  | leftBrace => "LeftBrace"
  | rightBrace => "RightBrace"
  | comma => "Comma"
  | dot => "Dot"
  | minus => "Minus"
  | plus => "Plus"
  | semicolon => "Semicolon"
  | slash => "Slash"
  | star => "Star"
  | bang => "Bang"
  | bangEqual => "BangEqual"
  | equal => "Equal"
  | equalEqual => "EqualEqual"
  | greater => "Greater"
  | greaterEqual => "GreaterEqual"
  | less => "Less"
  | lessEqual => "LessEqual"
  | identifier => "Identifier"
  | string => "String"
  | number => "Number"
  | kwAnd => "And"
  | kwClass => "Class"
  | kwElse => "Else"
  | kwFalse => "False"
  | kwFun => "Fun"
  | kwFor => "For"
  | kwIf => "If"
  | kwNil => "Nil"
  | kwOr => "Or"
  | kwPrint => "Print"
  | kwReturn => "Return"
  | kwSuper => "Super"
  | kwThis => "This"
  | kwTrue => "True"
  | kwVar => "Var"
  | kwWhile => "While"
  | eof => "Eof"

/-- Every kind, in the order of their declaration. -/
def all : List Kind :=
  [leftParen, rightParen, leftBrace, rightBrace, comma, dot, minus, plus,
   semicolon, slash, star, bang, bangEqual, equal, equalEqual, greater,
   greaterEqual, less, lessEqual, identifier, string, number, kwAnd, kwClass,
   kwElse, kwFalse, kwFun, kwFor, kwIf, kwNil, kwOr, kwPrint, kwReturn,
   kwSuper, kwThis, kwTrue, kwVar, kwWhile, eof]

theorem mem_all (k : Kind) : k ∈ all := by cases k <;> decide

/-- The kind with the given name. -/
def ofName? (s : String) : Option Kind := all.find? (·.name == s)

/-- The reserved words by their exact spelling. -/
def reserved : List (String × Kind) :=
  [("and", kwAnd), ("class", kwClass), ("else", kwElse), ("false", kwFalse),
   ("fun", kwFun), ("for", kwFor), ("if", kwIf), ("nil", kwNil), ("or", kwOr),
   ("print", kwPrint), ("return", kwReturn), ("super", kwSuper),
   ("this", kwThis), ("true", kwTrue), ("var", kwVar), ("while", kwWhile)]

/-- A word is reserved or else an identifier. -/
def ofWord (word : String) : Kind := (reserved.lookup word).getD identifier

end Kind

end Token

/-- One token of a script. -/
structure Token where
  kind : Token.Kind
  lexeme : String
  literal : Option Literal
  line : Nat
deriving DecidableEq, Repr

namespace Token

/-- The token that stands after the last one, on the given line. -/
def endOfFile (line : Nat) : Token := ⟨.eof, "", none, line⟩

/-- A token as a listing shows it: kind, spelling and, if it has one, its
literal. -/
def text (t : Token) : String :=
  match t.literal with
  | some literal => t.kind.name ++ " " ++ t.lexeme ++ " " ++ literal.text
  | none => t.kind.name ++ " " ++ t.lexeme

end Token

end Scriptlet
