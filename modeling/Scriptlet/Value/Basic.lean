/-
# Values

What expressions evaluate to.  Functions are values: one that a script declares
remembers the scope it was declared in and has an identity, so that two
functions with the same text are still two; one that comes with the language is
known by its name.
-/
import Scriptlet.Tree.Basic
import Scriptlet.Text.Quoted

namespace Scriptlet

/-- A scope is known by the number of scopes that were made before it. -/
abbrev ScopeId := Nat

/-- The functions that come with the language. -/
inductive Native where
  /-- Milliseconds since the start. -/
  | clock
  | squareRoot
  | textOf
deriving DecidableEq, Repr

namespace Native

/-- The functions that the global scope starts out with. -/
def all : List Native := [clock, squareRoot, textOf]

/-- The name that scripts call it by. -/
def name : Native → String
  | clock => "clock"
  | squareRoot => "sqrt"
  | textOf => "toString"

def arity : Native → Nat
  | clock => 0
  | squareRoot | textOf => 1

end Native

/-- A function that a script declared. -/
structure Closure where
  identity : Nat
  name : Token
  params : List Token
  body : List Stmt
  /-- The scope of the declaration. -/
  scope : ScopeId
deriving DecidableEq

def Closure.arity (f : Closure) : Nat := f.params.length

/-- A function in one line for a reader of the program: its quoted name and its
arity. -/
def Closure.summary (f : Closure) : String :=
  "Function \x7b name: " ++ quoted f.name.lexeme ++ ", arity: " ++ toString f.arity ++ ", .. \x7d"

inductive Value where
  | nil
  | boolean (value : Bool)
  | number (value : Float)
  | string (value : String)
  | function (closure : Closure)
  | native (function : Native)
deriving DecidableEq

namespace Value

def ofLiteral : Literal → Value
  | .nil => nil
  | .boolean value => boolean value
  | .number value => number value
  | .string value => string value

/-- A value as `print` shows it. -/
def text : Value → String
  | nil => "nil"
  | boolean true => "true"
  | boolean false => "false"
  | number value => numberText value
  | string value => value
  | function f => "<fn " ++ f.name.lexeme ++ ">"
  | native f => "<native fn " ++ f.name ++ ">"

/-- The word for the value's type in messages. -/
def typeName : Value → String
  | nil => "nil"
  | boolean _ => "boolean"
  | number _ => "number"
  | string _ => "string"
  | function _ | native _ => "function"

/-- Only `nil` and `false` count as false. -/
def isTruthy : Value → Bool
  | nil | boolean false => false
  | _ => true

/-- Equality of the language.  Values of different types differ, numbers
compare as numbers do, so that one that is not a number differs from itself,
and functions are equal when they are the same function. -/
def equals : Value → Value → Bool
  | nil, nil => true
  | boolean a, boolean b => a == b
  | number a, number b => a == b
  | string a, string b => a == b
  | function f, function g => f.identity == g.identity
  | native f, native g => f == g
  | _, _ => false

end Value

end Scriptlet
