/-
# Trees up to lines

The tokens in a tree say on which line they stood.  `unlined` forgets that of a
token, of an expression, of a statement and of a program, so two trees are the
same up to lines if they become equal.  Expressions and statements have lists of
themselves below them, and the induction over them is stated here so that the
hypothesis is about every member of such a list.
-/
import Scriptlet.Tree.Basic

namespace Scriptlet

/-! ## Induction -/

/-- Induction over an expression; what a call is passed are many
subexpressions. -/
@[elab_as_elim, induction_eliminator]
theorem Expr.induction {motive : Expr → Prop}
    (assign : ∀ name value, motive value → motive (.assign name value))
    (binary : ∀ left operator right, motive left → motive right →
      motive (.binary left operator right))
    (call : ∀ callee paren arguments, motive callee → (∀ e ∈ arguments, motive e) →
      motive (.call callee paren arguments))
    (grouping : ∀ inner, motive inner → motive (.grouping inner))
    (literal : ∀ value, motive (.literal value))
    (logical : ∀ left operator right, motive left → motive right →
      motive (.logical left operator right))
    (unary : ∀ operator operand, motive operand → motive (.unary operator operand))
    (identifier : ∀ name, motive (.identifier name)) (e : Expr) : motive e :=
  @Expr.rec motive (fun es => ∀ e ∈ es, motive e) assign binary call grouping literal logical
    unary identifier (fun _ h => nomatch h)
    (fun _ _ head tail => List.forall_mem_cons.2 ⟨head, tail⟩) e

/-- Induction over a statement; a block and a function have many statements
below them. -/
@[elab_as_elim, induction_eliminator]
theorem Stmt.induction {motive : Stmt → Prop}
    (block : ∀ statements, (∀ s ∈ statements, motive s) → motive (.block statements))
    (expression : ∀ value, motive (.expression value))
    (function : ∀ name params body, (∀ s ∈ body, motive s) →
      motive (.function name params body))
    (ifThen : ∀ condition thenBranch, motive thenBranch → motive (.ifThen condition thenBranch))
    (ifElse : ∀ condition thenBranch elseBranch, motive thenBranch → motive elseBranch →
      motive (.ifElse condition thenBranch elseBranch))
    (print : ∀ value, motive (.print value))
    (returns : ∀ keyword value, motive (.returns keyword value))
    (var : ∀ name initial, motive (.var name initial))
    (whileLoop : ∀ condition body, motive body → motive (.whileLoop condition body))
    (s : Stmt) : motive s :=
  @Stmt.rec motive (fun ss => ∀ s ∈ ss, motive s) block expression function ifThen ifElse print
    returns var whileLoop (fun _ h => nomatch h)
    (fun _ _ head tail => List.forall_mem_cons.2 ⟨head, tail⟩) s

/-! ## Forgetting lines -/

/-- The token, on no line in particular. -/
def Token.unlined (t : Token) : Token := { t with line := 0 }

namespace Token

@[simp] theorem unlined_kind (t : Token) : t.unlined.kind = t.kind := rfl

@[simp] theorem unlined_lexeme (t : Token) : t.unlined.lexeme = t.lexeme := rfl

@[simp] theorem unlined_literal (t : Token) : t.unlined.literal = t.literal := rfl

@[simp] theorem unlined_unlined (t : Token) : t.unlined.unlined = t.unlined := rfl

theorem kind_eq {t t' : Token} (h : t'.unlined = t.unlined) : t'.kind = t.kind := by
  rw [← unlined_kind, h, unlined_kind]

theorem lexeme_eq {t t' : Token} (h : t'.unlined = t.unlined) : t'.lexeme = t.lexeme := by
  rw [← unlined_lexeme, h, unlined_lexeme]

theorem literal_eq {t t' : Token} (h : t'.unlined = t.unlined) : t'.literal = t.literal := by
  rw [← unlined_literal, h, unlined_literal]

end Token

namespace Expr

mutual

/-- The expression with every token on no line in particular. -/
def unlined : Expr → Expr
  | .assign name value => .assign name.unlined value.unlined
  | .binary left operator right => .binary left.unlined operator.unlined right.unlined
  | .call callee paren arguments => .call callee.unlined paren.unlined (unlinedAll arguments)
  | .grouping inner => .grouping inner.unlined
  | .literal value => .literal value
  | .logical left operator right => .logical left.unlined operator.unlined right.unlined
  | .unary operator operand => .unary operator.unlined operand.unlined
  | .identifier name => .identifier name.unlined

def unlinedAll : List Expr → List Expr
  | [] => []
  | e :: es => e.unlined :: unlinedAll es

end

theorem unlinedAll_eq (es : List Expr) : unlinedAll es = es.map unlined := by
  induction es with
  | nil => rfl
  | cons e es ih => rw [unlinedAll, ih, List.map_cons]

end Expr

namespace Stmt

mutual

/-- The statement with every token on no line in particular. -/
def unlined : Stmt → Stmt
  | .block statements => .block (unlinedAll statements)
  | .expression value => .expression value.unlined
  | .function name params body =>
      .function name.unlined (params.map Token.unlined) (unlinedAll body)
  | .ifThen condition thenBranch => .ifThen condition.unlined thenBranch.unlined
  | .ifElse condition thenBranch elseBranch =>
      .ifElse condition.unlined thenBranch.unlined elseBranch.unlined
  | .print value => .print value.unlined
  | .returns keyword value => .returns keyword.unlined (value.map Expr.unlined)
  | .var name initial => .var name.unlined initial.unlined
  | .whileLoop condition body => .whileLoop condition.unlined body.unlined

def unlinedAll : List Stmt → List Stmt
  | [] => []
  | s :: ss => s.unlined :: unlinedAll ss

end

theorem unlinedAll_eq (ss : List Stmt) : unlinedAll ss = ss.map unlined := by
  induction ss with
  | nil => rfl
  | cons s ss ih => rw [unlinedAll, ih, List.map_cons]

end Stmt

/-- The program with every token on no line in particular. -/
def Program.unlined (program : Program) : Program := program.map Stmt.unlined

end Scriptlet
