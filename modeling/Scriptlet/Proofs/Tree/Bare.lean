/-
# Trees without parentheses

What a tree means does not depend on the parentheses in it, which have done their
work when it was read, nor on the lines of its tokens.  `bare` takes both away.

Two trees with the same bare form need not have the same shape: either may have
any number of parentheses where the other has none.  Below its outermost
parentheses, though, an expression shows the node that its bare form begins with
(`Expr.core`), so two of them that are the same when bare are there `Twin`s: the
same node, with the same tokens up to lines and with parts that are the same when
bare.
-/
import Scriptlet.Proofs.Tree.Lines

namespace Scriptlet

namespace Expr

mutual

/-- The expression without its parentheses and with every token on no line in
particular. -/
def bare : Expr → Expr
  | .assign name value => .assign name.unlined value.bare
  | .binary left operator right => .binary left.bare operator.unlined right.bare
  | .call callee paren arguments => .call callee.bare paren.unlined (bareAll arguments)
  | .grouping inner => inner.bare
  | .literal value => .literal value
  | .logical left operator right => .logical left.bare operator.unlined right.bare
  | .unary operator operand => .unary operator.unlined operand.bare
  | .identifier name => .identifier name.unlined

def bareAll : List Expr → List Expr
  | [] => []
  | e :: es => e.bare :: bareAll es

end

theorem bareAll_eq (es : List Expr) : bareAll es = es.map bare := by
  induction es with
  | nil => rfl
  | cons e es ih => rw [bareAll, ih, List.map_cons]

/-- What is forgotten with the lines is forgotten here anyway. -/
theorem bare_unlined (e : Expr) : e.unlined.bare = e.bare := by
  induction e using Expr.induction with
  | assign name value ih => rw [unlined, bare, bare, ih, Token.unlined_unlined]
  | binary left operator right ihLeft ihRight =>
      rw [unlined, bare, bare, ihLeft, ihRight, Token.unlined_unlined]
  | call callee paren arguments ih ihs =>
      rw [unlined, bare, bare, ih, Token.unlined_unlined, unlinedAll_eq, bareAll_eq, bareAll_eq,
        List.map_map]
      exact congrArg _ (List.map_congr_left ihs)
  | grouping inner ih => rw [unlined, bare, bare, ih]
  | literal value => rfl
  | logical left operator right ihLeft ihRight =>
      rw [unlined, bare, bare, ihLeft, ihRight, Token.unlined_unlined]
  | unary operator operand ih => rw [unlined, bare, bare, ih, Token.unlined_unlined]
  | identifier name => rfl

/-! ## Below the outermost parentheses -/

/-- The expression inside of its outermost parentheses. -/
def core : Expr → Expr
  | .grouping inner => inner.core
  | e => e

/-- Neither expression is in parentheses, and they are the same when bare. -/
inductive Twin : Expr → Expr → Prop
  | assign {name name' : Token} {value value' : Expr} : name.unlined = name'.unlined →
      value.bare = value'.bare → Twin (.assign name value) (.assign name' value')
  | binary {left left' right right' : Expr} {operator operator' : Token} :
      left.bare = left'.bare → operator.unlined = operator'.unlined → right.bare = right'.bare →
      Twin (.binary left operator right) (.binary left' operator' right')
  | call {callee callee' : Expr} {paren paren' : Token} {arguments arguments' : List Expr} :
      callee.bare = callee'.bare → paren.unlined = paren'.unlined →
      arguments.map bare = arguments'.map bare →
      Twin (.call callee paren arguments) (.call callee' paren' arguments')
  | literal (value : Literal) : Twin (.literal value) (.literal value)
  | logical {left left' right right' : Expr} {operator operator' : Token} :
      left.bare = left'.bare → operator.unlined = operator'.unlined → right.bare = right'.bare →
      Twin (.logical left operator right) (.logical left' operator' right')
  | unary {operator operator' : Token} {operand operand' : Expr} :
      operator.unlined = operator'.unlined → operand.bare = operand'.bare →
      Twin (.unary operator operand) (.unary operator' operand')
  | identifier {name name' : Token} : name.unlined = name'.unlined →
      Twin (.identifier name) (.identifier name')

/-- An expression that is not in parentheses, and any other one that is the same
when bare, are twins but for the parentheses of the other one. -/
theorem twin_of_bare {e e' : Expr} (same : e.bare = e'.bare)
    (shown : ∀ inner, e ≠ .grouping inner) : Twin e e'.core := by
  induction e' with
  | grouping inner ih => exact ih same
  | assign name' value' =>
      cases e <;> simp only [bare, reduceCtorEq, Expr.assign.injEq] at same
      case assign => exact .assign same.1 same.2
      case grouping => exact absurd rfl (shown _)
  | binary left' operator' right' =>
      cases e <;> simp only [bare, reduceCtorEq, Expr.binary.injEq] at same
      case binary => exact .binary same.1 same.2.1 same.2.2
      case grouping => exact absurd rfl (shown _)
  | call callee' paren' arguments' =>
      cases e <;> simp only [bare, reduceCtorEq, Expr.call.injEq, bareAll_eq] at same
      case call => exact .call same.1 same.2.1 same.2.2
      case grouping => exact absurd rfl (shown _)
  | literal value' =>
      cases e <;> simp only [bare, reduceCtorEq, Expr.literal.injEq] at same
      case literal value =>
          subst same
          exact .literal value
      case grouping => exact absurd rfl (shown _)
  | logical left' operator' right' =>
      cases e <;> simp only [bare, reduceCtorEq, Expr.logical.injEq] at same
      case logical => exact .logical same.1 same.2.1 same.2.2
      case grouping => exact absurd rfl (shown _)
  | unary operator' operand' =>
      cases e <;> simp only [bare, reduceCtorEq, Expr.unary.injEq] at same
      case unary => exact .unary same.1 same.2
      case grouping => exact absurd rfl (shown _)
  | identifier name' =>
      cases e <;> simp only [bare, reduceCtorEq, Expr.identifier.injEq] at same
      case identifier => exact .identifier same
      case grouping => exact absurd rfl (shown _)

end Expr

namespace Stmt

mutual

/-- The statement without parentheses in its expressions and with every token on
no line in particular. -/
def bare : Stmt → Stmt
  | .block statements => .block (bareAll statements)
  | .expression value => .expression value.bare
  | .function name params body =>
      .function name.unlined (params.map Token.unlined) (bareAll body)
  | .ifThen condition thenBranch => .ifThen condition.bare thenBranch.bare
  | .ifElse condition thenBranch elseBranch =>
      .ifElse condition.bare thenBranch.bare elseBranch.bare
  | .print value => .print value.bare
  | .returns keyword value => .returns keyword.unlined (value.map Expr.bare)
  | .var name initial => .var name.unlined initial.bare
  | .whileLoop condition body => .whileLoop condition.bare body.bare

def bareAll : List Stmt → List Stmt
  | [] => []
  | s :: ss => s.bare :: bareAll ss

end

theorem bareAll_eq (ss : List Stmt) : bareAll ss = ss.map bare := by
  induction ss with
  | nil => rfl
  | cons s ss ih => rw [bareAll, ih, List.map_cons]

theorem bareAll_unlinedAll {ss : List Stmt} (h : ∀ s ∈ ss, s.unlined.bare = s.bare) :
    bareAll (unlinedAll ss) = bareAll ss := by
  rw [unlinedAll_eq, bareAll_eq, bareAll_eq, List.map_map]
  exact List.map_congr_left h

theorem bare_unlined (s : Stmt) : s.unlined.bare = s.bare := by
  induction s with
  | block statements ihs => rw [unlined, bare, bare, bareAll_unlinedAll ihs]
  | expression value => rw [unlined, bare, bare, Expr.bare_unlined]
  | function name params body ihs =>
      rw [unlined, bare, bare, bareAll_unlinedAll ihs, List.map_map]
      rfl
  | ifThen condition thenBranch ih => rw [unlined, bare, bare, Expr.bare_unlined, ih]
  | ifElse condition thenBranch elseBranch ihThen ihElse =>
      rw [unlined, bare, bare, Expr.bare_unlined, ihThen, ihElse]
  | print value => rw [unlined, bare, bare, Expr.bare_unlined]
  | returns keyword value =>
      cases value with
      | none => rfl
      | some value => exact congrArg (fun e => Stmt.returns _ (some e)) value.bare_unlined
  | var name initial => rw [unlined, bare, bare, Expr.bare_unlined, Token.unlined_unlined]
  | whileLoop condition body ih => rw [unlined, bare, bare, Expr.bare_unlined, ih]

/-- The statements are the same when bare, seen from the outside. -/
inductive Twin : Stmt → Stmt → Prop
  | block {statements statements' : List Stmt} : statements.map bare = statements'.map bare →
      Twin (.block statements) (.block statements')
  | expression {value value' : Expr} : value.bare = value'.bare →
      Twin (.expression value) (.expression value')
  | function {name name' : Token} {params params' : List Token} {body body' : List Stmt} :
      name.unlined = name'.unlined → params.map Token.unlined = params'.map Token.unlined →
      body.map bare = body'.map bare →
      Twin (.function name params body) (.function name' params' body')
  | ifThen {condition condition' : Expr} {thenBranch thenBranch' : Stmt} :
      condition.bare = condition'.bare → thenBranch.bare = thenBranch'.bare →
      Twin (.ifThen condition thenBranch) (.ifThen condition' thenBranch')
  | ifElse {condition condition' : Expr} {thenBranch thenBranch' elseBranch elseBranch' : Stmt} :
      condition.bare = condition'.bare → thenBranch.bare = thenBranch'.bare →
      elseBranch.bare = elseBranch'.bare →
      Twin (.ifElse condition thenBranch elseBranch) (.ifElse condition' thenBranch' elseBranch')
  | print {value value' : Expr} : value.bare = value'.bare → Twin (.print value) (.print value')
  | returnsNil {keyword keyword' : Token} : Twin (.returns keyword none) (.returns keyword' none)
  | returns {keyword keyword' : Token} {value value' : Expr} : value.bare = value'.bare →
      Twin (.returns keyword (some value)) (.returns keyword' (some value'))
  | var {name name' : Token} {initial initial' : Expr} : name.unlined = name'.unlined →
      initial.bare = initial'.bare → Twin (.var name initial) (.var name' initial')
  | whileLoop {condition condition' : Expr} {body body' : Stmt} :
      condition.bare = condition'.bare → body.bare = body'.bare →
      Twin (.whileLoop condition body) (.whileLoop condition' body')

theorem twin_of_bare {s s' : Stmt} (same : s.bare = s'.bare) : Twin s s' := by
  cases s' with
  | block statements' =>
      cases s <;> simp only [bare, reduceCtorEq, Stmt.block.injEq, bareAll_eq] at same
      case block => exact .block same
  | expression value' =>
      cases s <;> simp only [bare, reduceCtorEq, Stmt.expression.injEq] at same
      case expression => exact .expression same
  | function name' params' body' =>
      cases s <;> simp only [bare, reduceCtorEq, Stmt.function.injEq, bareAll_eq] at same
      case function => exact .function same.1 same.2.1 same.2.2
  | ifThen condition' thenBranch' =>
      cases s <;> simp only [bare, reduceCtorEq, Stmt.ifThen.injEq] at same
      case ifThen => exact .ifThen same.1 same.2
  | ifElse condition' thenBranch' elseBranch' =>
      cases s <;> simp only [bare, reduceCtorEq, Stmt.ifElse.injEq] at same
      case ifElse => exact .ifElse same.1 same.2.1 same.2.2
  | print value' =>
      cases s <;> simp only [bare, reduceCtorEq, Stmt.print.injEq] at same
      case print => exact .print same
  | returns keyword' value' =>
      cases s <;> simp only [bare, reduceCtorEq, Stmt.returns.injEq] at same
      case returns keyword value =>
          cases value <;> cases value' <;>
            simp only [Option.map_none, Option.map_some, reduceCtorEq, Option.some.injEq, and_false,
              and_true] at same
          case none.none => exact .returnsNil
          case some.some => exact .returns same.2
  | var name' initial' =>
      cases s <;> simp only [bare, reduceCtorEq, Stmt.var.injEq] at same
      case var => exact .var same.1 same.2
  | whileLoop condition' body' =>
      cases s <;> simp only [bare, reduceCtorEq, Stmt.whileLoop.injEq] at same
      case whileLoop => exact .whileLoop same.1 same.2

end Stmt

/-- The program without parentheses and with every token on no line in
particular. -/
def Program.bare (program : Program) : Program := program.map Stmt.bare

/-- Programs that are the same up to lines are the same when bare. -/
theorem Program.bare_of_unlined {program program' : Program}
    (same : program.unlined = program'.unlined) : program.bare = program'.bare := by
  have forgotten : ∀ p : Program, p.unlined.bare = p.bare := by
    intro p
    rw [unlined, bare, bare, List.map_map]
    exact List.map_congr_left fun s _ => s.bare_unlined
  rw [← forgotten program, same, forgotten]

end Scriptlet
