/-
# Syntax trees

A program is a list of statements.  Trees keep the tokens that carry a name, an
operator or a line to report, and nothing of the layout; parentheses stay, as
`grouping`, so that a tree can be written out again as it was.  There is no
node for `for`: such a loop is read as the `while` loop it means.
-/
import Scriptlet.Token.Basic

namespace Scriptlet

inductive Expr where
  | assign (name : Token) (value : Expr)
  | binary (left : Expr) (operator : Token) (right : Expr)
  /-- A call; `paren` is the closing parenthesis, whose line errors report. -/
  | call (callee : Expr) (paren : Token) (arguments : List Expr)
  | grouping (inner : Expr)
  | literal (value : Literal)
  /-- The operators `and` and `or`, which may skip their right operand. -/
  | logical (left : Expr) (operator : Token) (right : Expr)
  | unary (operator : Token) (operand : Expr)
  | identifier (name : Token)

inductive Stmt where
  | block (statements : List Stmt)
  | expression (value : Expr)
  | function (name : Token) (params : List Token) (body : List Stmt)
  | ifThen (condition : Expr) (thenBranch : Stmt)
  | ifElse (condition : Expr) (thenBranch elseBranch : Stmt)
  | print (value : Expr)
  | returns (keyword : Token) (value : Option Expr)
  | var (name : Token) (initial : Expr)
  | whileLoop (condition : Expr) (body : Stmt)

/-- The statements of a script, in order. -/
abbrev Program := List Stmt

/-! ## Equality of trees -/

mutual

/-- Two expressions are the same tree: the same nodes with the same tokens,
lines included. -/
def Expr.same : Expr → Expr → Bool
  | .assign n v, .assign n' v' => n == n' && v.same v'
  | .binary l o r, .binary l' o' r' => l.same l' && o == o' && r.same r'
  | .call c p as, .call c' p' as' => c.same c' && p == p' && Expr.sameAll as as'
  | .grouping e, .grouping e' => e.same e'
  | .literal v, .literal v' => v == v'
  | .logical l o r, .logical l' o' r' => l.same l' && o == o' && r.same r'
  | .unary o e, .unary o' e' => o == o' && e.same e'
  | .identifier n, .identifier n' => n == n'
  | _, _ => false

def Expr.sameAll : List Expr → List Expr → Bool
  | [], [] => true
  | e :: es, e' :: es' => e.same e' && Expr.sameAll es es'
  | _, _ => false

end

mutual

theorem Expr.same_iff : ∀ a b : Expr, a.same b = true ↔ a = b
  | .assign .., b => by cases b <;> simp [Expr.same, Expr.same_iff]
  | .binary .., b => by cases b <;> simp [Expr.same, Expr.same_iff, and_assoc]
  | .call .., b => by cases b <;> simp [Expr.same, Expr.same_iff, Expr.sameAll_iff, and_assoc]
  | .grouping .., b => by cases b <;> simp [Expr.same, Expr.same_iff]
  | .literal .., b => by cases b <;> simp [Expr.same]
  | .logical .., b => by cases b <;> simp [Expr.same, Expr.same_iff, and_assoc]
  | .unary .., b => by cases b <;> simp [Expr.same, Expr.same_iff]
  | .identifier .., b => by cases b <;> simp [Expr.same]

theorem Expr.sameAll_iff : ∀ as bs : List Expr, Expr.sameAll as bs = true ↔ as = bs
  | [], bs => by cases bs <;> simp [Expr.sameAll]
  | a :: as, bs => by
    cases bs with
    | nil => simp [Expr.sameAll]
    | cons b bs => simp [Expr.sameAll, Expr.same_iff a b, Expr.sameAll_iff as bs]

end

instance : DecidableEq Expr := fun a b => decidable_of_iff _ (Expr.same_iff a b)

mutual

/-- Two statements are the same tree. -/
def Stmt.same : Stmt → Stmt → Bool
  | .block ss, .block ss' => Stmt.sameAll ss ss'
  | .expression e, .expression e' => e == e'
  | .function n ps b, .function n' ps' b' => n == n' && ps == ps' && Stmt.sameAll b b'
  | .ifThen c t, .ifThen c' t' => c == c' && t.same t'
  | .ifElse c t e, .ifElse c' t' e' => c == c' && t.same t' && e.same e'
  | .print e, .print e' => e == e'
  | .returns k v, .returns k' v' => k == k' && v == v'
  | .var n e, .var n' e' => n == n' && e == e'
  | .whileLoop c b, .whileLoop c' b' => c == c' && b.same b'
  | _, _ => false

def Stmt.sameAll : List Stmt → List Stmt → Bool
  | [], [] => true
  | s :: ss, s' :: ss' => s.same s' && Stmt.sameAll ss ss'
  | _, _ => false

end

mutual

theorem Stmt.same_iff : ∀ a b : Stmt, a.same b = true ↔ a = b
  | .block .., b => by cases b <;> simp [Stmt.same, Stmt.sameAll_iff]
  | .expression .., b => by cases b <;> simp [Stmt.same]
  | .function .., b => by cases b <;> simp [Stmt.same, Stmt.sameAll_iff, and_assoc]
  | .ifThen .., b => by cases b <;> simp [Stmt.same, Stmt.same_iff]
  | .ifElse .., b => by cases b <;> simp [Stmt.same, Stmt.same_iff, and_assoc]
  | .print .., b => by cases b <;> simp [Stmt.same]
  | .returns .., b => by cases b <;> simp [Stmt.same]
  | .var .., b => by cases b <;> simp [Stmt.same]
  | .whileLoop .., b => by cases b <;> simp [Stmt.same, Stmt.same_iff]

theorem Stmt.sameAll_iff : ∀ as bs : List Stmt, Stmt.sameAll as bs = true ↔ as = bs
  | [], bs => by cases bs <;> simp [Stmt.sameAll]
  | a :: as, bs => by
    cases bs with
    | nil => simp [Stmt.sameAll]
    | cons b bs => simp [Stmt.sameAll, Stmt.same_iff a b, Stmt.sameAll_iff as bs]

end

instance : DecidableEq Stmt := fun a b => decidable_of_iff _ (Stmt.same_iff a b)

end Scriptlet
