/-
# Lines do not show

The written form of a tree, its tokens, the levels that it opens and its numbers
are the same for two trees that are the same up to lines.
-/
import Scriptlet.Proofs.Printing.Shape
import Mathlib.Data.List.Basic

namespace Scriptlet

namespace Expr

theorem unlined_isUnary (e : Expr) : e.unlined.isUnary = e.isUnary := by
  cases e <;> rfl

theorem unlined_written (e : Expr) : e.unlined.written = e.written := by
  induction e with
  | call callee paren arguments ih ihs =>
      have inside : (arguments.map unlined).map written = arguments.map written := by
        rw [List.map_map]
        exact List.map_congr_left ihs
      rw [unlined, written, written, ih, writtenAll_eq, writtenAll_eq, unlinedAll_eq, inside]
  | unary operator operand ih =>
      rw [unlined, written, written, ih, unlined_isUnary, Token.unlined_lexeme]
  | assign _ _ ih | grouping _ ih => simp only [unlined, written, ih, Token.unlined_lexeme]
  | binary _ _ _ ih ih' | logical _ _ _ ih ih' =>
      simp only [unlined, written, ih, ih', Token.unlined_lexeme]
  | literal | identifier => rfl

theorem unlined_depth (e : Expr) : e.unlined.depth = e.depth := by
  induction e with
  | call callee paren arguments ih ihs =>
      have inside : depthAll (unlinedAll arguments) = depthAll arguments := by
        induction arguments with
        | nil => rfl
        | cons e es rest =>
            obtain ⟨here, later⟩ := List.forall_mem_cons.1 ihs
            rw [unlinedAll, depthAll, depthAll, here, rest later]
      rw [unlined, depth, depth, ih, inside]
  | assign _ _ ih | grouping _ ih | unary _ _ ih => simp only [unlined, depth, ih]
  | binary _ _ _ ih ih' | logical _ _ _ ih ih' => simp only [unlined, depth, ih, ih']
  | literal | identifier => rfl

theorem unlined_numbers (e : Expr) : e.unlined.numbers = e.numbers := by
  induction e with
  | call callee paren arguments ih ihs =>
      rw [unlined, numbers, numbers, ih, numbersAll_eq, numbersAll_eq, unlinedAll_eq,
        List.flatMap_map]
      exact congrArg _ (List.flatMap_congr ihs)
  | assign _ _ ih | grouping _ ih | unary _ _ ih => simp only [unlined, numbers, ih]
  | binary _ _ _ ih ih' | logical _ _ _ ih ih' => simp only [unlined, numbers, ih, ih']
  | literal | identifier => rfl

theorem unlined_tokens (e : Expr) : e.unlined.tokens = e.tokens.map Token.unlined := by
  induction e with
  | call callee paren arguments ih ihs =>
      have inside : (arguments.map unlined).map tokens =
          (arguments.map tokens).map (·.map Token.unlined) := by
        rw [List.map_map, List.map_map]
        exact List.map_congr_left ihs
      simp only [unlined, tokens, ih, tokensAll_eq, unlinedAll_eq, inside, List.map_append,
        List.map_cons, List.map_nil, Token.plain_unlined, Token.separated_unlined]
  | assign _ _ ih | grouping _ ih | unary _ _ ih => simp [unlined, tokens, ih]
  | binary _ _ _ ih ih' | logical _ _ _ ih ih' => simp [unlined, tokens, ih, ih']
  | literal value => simp [unlined, tokens]
  | identifier => rfl

end Expr

namespace Stmt

theorem unlined_writtenAll {ss : List Stmt} (h : ∀ s ∈ ss, s.unlined.written = s.written) :
    writtenAll (ss.map unlined) = writtenAll ss := by
  rw [writtenAll_eq, writtenAll_eq, List.map_map]
  exact List.map_congr_left h

theorem unlined_written (s : Stmt) : s.unlined.written = s.written := by
  induction s with
  | block statements ihs => rw [unlined, written, written, unlinedAll_eq, unlined_writtenAll ihs]
  | function name params body ihs =>
      have names : (params.map Token.unlined).map (·.lexeme) = params.map (·.lexeme) := by
        rw [List.map_map]
        rfl
      rw [unlined, written, written, unlinedAll_eq, unlined_writtenAll ihs, names,
        Token.unlined_lexeme]
  | returns keyword value =>
      cases value with
      | none => rfl
      | some value => simp only [unlined, Option.map_some, written, value.unlined_written]
  | expression value | print value => simp only [unlined, written, value.unlined_written]
  | var name initial =>
      simp only [unlined, written, initial.unlined_written, Token.unlined_lexeme]
  | ifThen condition _ ih | whileLoop condition _ ih =>
      simp only [unlined, written, condition.unlined_written, ih]
  | ifElse condition _ _ ih ih' =>
      simp only [unlined, written, condition.unlined_written, ih, ih']

theorem unlined_depthAll {ss : List Stmt} (h : ∀ s ∈ ss, s.unlined.depth = s.depth) :
    depthAll (ss.map unlined) = depthAll ss := by
  induction ss with
  | nil => rfl
  | cons s ss ih =>
      obtain ⟨here, later⟩ := List.forall_mem_cons.1 h
      rw [List.map_cons, depthAll, depthAll, here, ih later]

theorem unlined_depth (s : Stmt) : s.unlined.depth = s.depth := by
  induction s with
  | block statements ihs =>
      rw [unlined, depth, depth, unlinedAll_eq, unlined_depthAll ihs]
  | function name params body ihs =>
      rw [unlined, depth, depth, unlinedAll_eq, unlined_depthAll ihs]
  | returns keyword value =>
      cases value with
      | none => rfl
      | some value => simp only [unlined, Option.map_some, depth, value.unlined_depth]
  | expression value | print value | var _ value =>
      simp only [unlined, depth, value.unlined_depth]
  | ifThen condition _ ih | whileLoop condition _ ih =>
      simp only [unlined, depth, condition.unlined_depth, ih]
  | ifElse condition _ _ ih ih' => simp only [unlined, depth, condition.unlined_depth, ih, ih']

theorem unlined_numbers (s : Stmt) : s.unlined.numbers = s.numbers := by
  induction s with
  | block statements ihs =>
      rw [unlined, numbers, numbers, numbersAll_eq, numbersAll_eq, unlinedAll_eq,
        List.flatMap_map]
      exact List.flatMap_congr ihs
  | function name params body ihs =>
      rw [unlined, numbers, numbers, numbersAll_eq, numbersAll_eq, unlinedAll_eq,
        List.flatMap_map]
      exact List.flatMap_congr ihs
  | returns keyword value =>
      cases value with
      | none => rfl
      | some value => simp only [unlined, Option.map_some, numbers, value.unlined_numbers]
  | expression value | print value | var _ value =>
      simp only [unlined, numbers, value.unlined_numbers]
  | ifThen condition _ ih | whileLoop condition _ ih =>
      simp only [unlined, numbers, condition.unlined_numbers, ih]
  | ifElse condition _ _ ih ih' =>
      simp only [unlined, numbers, condition.unlined_numbers, ih, ih']

theorem unlined_tokensAll {ss : List Stmt}
    (h : ∀ s ∈ ss, s.unlined.tokens = s.tokens.map Token.unlined) :
    tokensAll (ss.map unlined) = (tokensAll ss).map Token.unlined := by
  rw [tokensAll_eq, tokensAll_eq, List.flatMap_map, List.map_flatMap]
  exact List.flatMap_congr h

theorem unlined_tokens (s : Stmt) : s.unlined.tokens = s.tokens.map Token.unlined := by
  induction s with
  | block statements ihs =>
      simp only [unlined, tokens, unlinedAll_eq, unlined_tokensAll ihs, List.map_append,
        List.map_cons, List.map_nil, Token.plain_unlined]
  | function name params body ihs =>
      have inside : (params.map Token.unlined).map ([·]) =
          (params.map ([·])).map (·.map Token.unlined) := by
        rw [List.map_map, List.map_map]
        rfl
      simp only [unlined, tokens, unlinedAll_eq, unlined_tokensAll ihs, inside, List.map_append,
        List.map_cons, List.map_nil, Token.plain_unlined, Token.separated_unlined]
  | returns keyword value =>
      cases value with
      | none => rfl
      | some value => simp [unlined, tokens, value.unlined_tokens]
  | expression value | print value | var _ value =>
      simp [unlined, tokens, value.unlined_tokens]
  | ifThen condition _ ih | whileLoop condition _ ih =>
      simp [unlined, tokens, condition.unlined_tokens, ih]
  | ifElse condition _ _ ih ih' => simp [unlined, tokens, condition.unlined_tokens, ih, ih']

end Stmt

/-! ## Programs -/

namespace Program

variable {program program' : Program}

theorem written_eq (same : unlined program' = unlined program) :
    program'.written = program.written := by
  have forget : ∀ p : Program, p.unlined.written = p.written := by
    intro p
    unfold unlined written
    rw [List.map_map]
    exact congrArg _ (List.map_congr_left fun s _ => congrArg (· ++ "\n") s.unlined_written)
  rw [← forget, same, forget]

theorem depth_eq (same : unlined program' = unlined program) :
    program'.depth = program.depth := by
  have forget : ∀ p : Program, p.unlined.depth = p.depth :=
    fun p => Stmt.unlined_depthAll fun s _ => s.unlined_depth
  rw [← forget, same, forget]

theorem numbers_eq (same : unlined program' = unlined program) :
    program'.numbers = program.numbers := by
  have forget : ∀ p : Program, p.unlined.numbers = p.numbers := by
    intro p
    unfold unlined numbers
    rw [List.flatMap_map]
    exact List.flatMap_congr fun s _ => s.unlined_numbers
  rw [← forget, same, forget]

theorem tokens_alike (same : unlined program' = unlined program) :
    program'.tokens.map Token.unlined = program.tokens.map Token.unlined := by
  have forget : ∀ p : Program, p.unlined.tokens = p.tokens.map Token.unlined := by
    intro p
    unfold unlined tokens
    rw [List.flatMap_map, List.map_flatMap]
    exact List.flatMap_congr fun s _ => s.unlined_tokens
  rw [← forget, same, forget]

end Program

end Scriptlet
