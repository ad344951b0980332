/-
# Moving lines

A text that is put behind another one has its tokens further down.  `relined φ`
moves every token of a tree from its line to the one that `φ` gives for it.
Moving lines twice is moving them once, along both maps in turn, and nothing
else in a tree changes.
-/
import Scriptlet.Proofs.Tree.Lines

namespace Scriptlet

/-- The token on the line that `φ` gives for its own. -/
def Token.relined (φ : Nat → Nat) (t : Token) : Token := { t with line := φ t.line }

namespace Token

variable (φ ψ : Nat → Nat) (t : Token)

@[simp] theorem relined_kind : (t.relined φ).kind = t.kind := rfl

@[simp] theorem relined_lexeme : (t.relined φ).lexeme = t.lexeme := rfl

@[simp] theorem relined_line : (t.relined φ).line = φ t.line := rfl

theorem relined_relined : (t.relined φ).relined ψ = t.relined (ψ ∘ φ) := rfl

theorem relined_id : t.relined id = t := rfl

end Token

namespace Expr

mutual

/-- The expression with every token on the line that `φ` gives for its own. -/
def relined (φ : Nat → Nat) : Expr → Expr
  | .assign name value => .assign (name.relined φ) (value.relined φ)
  | .binary left operator right =>
      .binary (left.relined φ) (operator.relined φ) (right.relined φ)
  | .call callee paren arguments =>
      .call (callee.relined φ) (paren.relined φ) (relinedAll φ arguments)
  | .grouping inner => .grouping (inner.relined φ)
  | .literal value => .literal value
  | .logical left operator right =>
      .logical (left.relined φ) (operator.relined φ) (right.relined φ)
  | .unary operator operand => .unary (operator.relined φ) (operand.relined φ)
  | .identifier name => .identifier (name.relined φ)

def relinedAll (φ : Nat → Nat) : List Expr → List Expr
  | [] => []
  | e :: es => e.relined φ :: relinedAll φ es

end

variable {φ ψ : Nat → Nat}

theorem relinedAll_eq (es : List Expr) : relinedAll φ es = es.map (relined φ) := by
  induction es with
  | nil => rfl
  | cons e es ih => rw [relinedAll, ih, List.map_cons]

theorem relinedAll_relinedAll {es : List Expr}
    (h : ∀ e ∈ es, (e.relined φ).relined ψ = e.relined (ψ ∘ φ)) :
    relinedAll ψ (relinedAll φ es) = relinedAll (ψ ∘ φ) es := by
  rw [relinedAll_eq, relinedAll_eq, relinedAll_eq, List.map_map]
  exact List.map_congr_left h

theorem relinedAll_id {es : List Expr} (h : ∀ e ∈ es, e.relined id = e) :
    relinedAll id es = es := by
  rw [relinedAll_eq, List.map_congr_left h, List.map_id']

theorem relined_relined (e : Expr) : (e.relined φ).relined ψ = e.relined (ψ ∘ φ) := by
  induction e with
  | assign name value ih => rw [relined, relined, relined, ih, Token.relined_relined]
  | binary left operator right ihLeft ihRight =>
      rw [relined, relined, relined, ihLeft, ihRight, Token.relined_relined]
  | call callee paren arguments ih ihs =>
      rw [relined, relined, relined, ih, Token.relined_relined, relinedAll_relinedAll ihs]
  | grouping inner ih => rw [relined, relined, relined, ih]
  | literal value => rfl
  | logical left operator right ihLeft ihRight =>
      rw [relined, relined, relined, ihLeft, ihRight, Token.relined_relined]
  | unary operator operand ih => rw [relined, relined, relined, ih, Token.relined_relined]
  | identifier name => rfl

theorem relined_id (e : Expr) : e.relined id = e := by
  induction e with
  | assign name value ih => rw [relined, ih, Token.relined_id]
  | binary left operator right ihLeft ihRight =>
      rw [relined, ihLeft, ihRight, Token.relined_id]
  | call callee paren arguments ih ihs =>
      rw [relined, ih, Token.relined_id, relinedAll_id ihs]
  | grouping inner ih => rw [relined, ih]
  | literal value => rfl
  | logical left operator right ihLeft ihRight =>
      rw [relined, ihLeft, ihRight, Token.relined_id]
  | unary operator operand ih => rw [relined, ih, Token.relined_id]
  | identifier name => rfl

end Expr

namespace Stmt

mutual

/-- The statement with every token on the line that `φ` gives for its own. -/
def relined (φ : Nat → Nat) : Stmt → Stmt
  | .block statements => .block (relinedAll φ statements)
  | .expression value => .expression (value.relined φ)
  | .function name params body =>
      .function (name.relined φ) (params.map (Token.relined φ)) (relinedAll φ body)
  | .ifThen condition thenBranch => .ifThen (condition.relined φ) (thenBranch.relined φ)
  | .ifElse condition thenBranch elseBranch =>
      .ifElse (condition.relined φ) (thenBranch.relined φ) (elseBranch.relined φ)
  | .print value => .print (value.relined φ)
  | .returns keyword value => .returns (keyword.relined φ) (value.map (Expr.relined φ))
  | .var name initial => .var (name.relined φ) (initial.relined φ)
  | .whileLoop condition body => .whileLoop (condition.relined φ) (body.relined φ)

def relinedAll (φ : Nat → Nat) : List Stmt → List Stmt
  | [] => []
  | s :: ss => s.relined φ :: relinedAll φ ss

end

variable {φ ψ : Nat → Nat}

theorem relinedAll_eq (ss : List Stmt) : relinedAll φ ss = ss.map (relined φ) := by
  induction ss with
  | nil => rfl
  | cons s ss ih => rw [relinedAll, ih, List.map_cons]

theorem relinedAll_relinedAll {ss : List Stmt}
    (h : ∀ s ∈ ss, (s.relined φ).relined ψ = s.relined (ψ ∘ φ)) :
    relinedAll ψ (relinedAll φ ss) = relinedAll (ψ ∘ φ) ss := by
  rw [relinedAll_eq, relinedAll_eq, relinedAll_eq, List.map_map]
  exact List.map_congr_left h

theorem relinedAll_id {ss : List Stmt} (h : ∀ s ∈ ss, s.relined id = s) :
    relinedAll id ss = ss := by
  rw [relinedAll_eq, List.map_congr_left h, List.map_id']

theorem relined_relined (s : Stmt) : (s.relined φ).relined ψ = s.relined (ψ ∘ φ) := by
  induction s with
  | block statements ihs => rw [relined, relined, relined, relinedAll_relinedAll ihs]
  | expression value => rw [relined, relined, relined, Expr.relined_relined]
  | function name params body ihs =>
      rw [relined, relined, relined, relinedAll_relinedAll ihs, Token.relined_relined,
        List.map_map]
      rfl
  | ifThen condition thenBranch ih =>
      rw [relined, relined, relined, Expr.relined_relined, ih]
  | ifElse condition thenBranch elseBranch ihThen ihElse =>
      rw [relined, relined, relined, Expr.relined_relined, ihThen, ihElse]
  | print value => rw [relined, relined, relined, Expr.relined_relined]
  | returns keyword value =>
      cases value with
      | none => rfl
      | some value =>
          exact congrArg (fun e => Stmt.returns _ (some e)) (Expr.relined_relined value)
  | var name initial => rw [relined, relined, relined, Expr.relined_relined, Token.relined_relined]
  | whileLoop condition body ih => rw [relined, relined, relined, Expr.relined_relined, ih]

theorem relined_id (s : Stmt) : s.relined id = s := by
  induction s with
  | block statements ihs => rw [relined, relinedAll_id ihs]
  | expression value => rw [relined, Expr.relined_id]
  | function name params body ihs =>
      rw [relined, relinedAll_id ihs, Token.relined_id]
      exact congrArg (Stmt.function name · body) (List.map_id' params)
  | ifThen condition thenBranch ih => rw [relined, Expr.relined_id, ih]
  | ifElse condition thenBranch elseBranch ihThen ihElse =>
      rw [relined, Expr.relined_id, ihThen, ihElse]
  | print value => rw [relined, Expr.relined_id]
  | returns keyword value =>
      cases value with
      | none => rfl
      | some value =>
          exact congrArg (fun e => Stmt.returns keyword (some e)) (Expr.relined_id value)
  | var name initial => rw [relined, Expr.relined_id, Token.relined_id]
  | whileLoop condition body ih => rw [relined, Expr.relined_id, ih]

end Stmt

/-- The program with every token on the line that `φ` gives for its own. -/
def Program.relined (φ : Nat → Nat) (program : Program) : Program :=
  program.map (Stmt.relined φ)

namespace Program

variable {φ ψ : Nat → Nat}

theorem relined_relined (program : Program) :
    (program.relined φ).relined ψ = program.relined (ψ ∘ φ) := by
  unfold relined
  rw [List.map_map]
  exact List.map_congr_left fun s _ => s.relined_relined

theorem relined_id (program : Program) : program.relined id = program := by
  unfold relined
  rw [List.map_congr_left fun s _ => s.relined_id, List.map_id']

end Program

end Scriptlet
