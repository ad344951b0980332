/-
# The tokens of a tree

A tree names its words in order: the tokens that it keeps, and between them the
ones that its nodes stand for.  `Expr.tokens` and `Stmt.tokens` list them, and
nothing there looks at characters.  Any tree has tokens, whatever operators it
nests in each other and whatever statements it has as branches.

The trees whose tokens can be written down are the `Writable` ones: the tokens
that they keep are ones that scanning makes, and their literals have a spelling.
-/
import Scriptlet.Proofs.Scanning.Spells
import Scriptlet.Tree.Printer

namespace Scriptlet

/-! ## Literals -/

namespace Literal

/-- The literal has a spelling: a number that is neither negative nor no number
at all, and a string that leaves one of the two quotes free. -/
def Writable : Literal → Prop
  | .number value => value.toBits.toNat ≤ infinityBits
  | .string value => '"' ∈ value.toList → '\'' ∉ value.toList
  | .nil | .boolean _ => True

/-- The token that the literal is written as.  Infinity is written as a word,
and a word that is not reserved is a name. -/
def token : Literal → Token
  | .nil => .plain .kwNil
  | .boolean true => .plain .kwTrue
  | .boolean false => .plain .kwFalse
  | .number value =>
      if value.isFinite then ⟨.number, numberText value, some (.number value), 0⟩
      else ⟨.identifier, numberText value, none, 0⟩
  | .string value => ⟨.string, written (.string value), some (.string value), 0⟩

theorem token_finite {x : Float} (h : x.isFinite = true) :
    token (.number x) = ⟨.number, numberText x, some (.number x), 0⟩ := if_pos h

theorem token_infinite {x : Float} (h : ¬ x.isFinite = true) :
    token (.number x) = ⟨.identifier, numberText x, none, 0⟩ := if_neg h

@[simp] theorem token_unlined (value : Literal) : value.token.unlined = value.token := by
  cases value with
  | nil => rfl
  | boolean value => cases value <;> rfl
  | number x =>
      by_cases finite : x.isFinite = true
      · rw [token_finite finite]
        rfl
      · rw [token_infinite finite]
        rfl
  | string value => rfl

end Literal

/-! ## Tokens of expressions and statements -/

namespace Token

/-- Lists of tokens with a comma between each two. -/
def separated : List (List Token) → List Token
  | [] => []
  | [part] => part
  | part :: next :: parts => part ++ plain .comma :: separated (next :: parts)

theorem separated_unlined (parts : List (List Token)) :
    (separated parts).map unlined = separated (parts.map (·.map unlined)) := by
  induction parts with
  | nil => rfl
  | cons part parts ih =>
      cases parts with
      | nil => rfl
      | cons next parts =>
          show (part ++ plain .comma :: separated (next :: parts)).map unlined = _
          rw [List.map_append, List.map_cons, ih]
          rfl

/-- The token is one that scanning makes, of the kind. -/
def Is (t : Token) (kind : Kind) : Prop := t.Genuine ∧ t.kind = kind

theorem Is.plain {t : Token} {kind : Kind} (h : t.Is kind) (fixed : kind ∉ Kind.free) :
    t.unlined = Token.plain kind := by
  obtain ⟨genuine, rfl⟩ := h
  exact genuine.plain fixed

end Token

namespace Expr

mutual

/-- The tokens that the expression is written as, in order. -/
def tokens : Expr → List Token
  | .assign name value => name :: .plain .equal :: value.tokens
  | .binary left operator right => left.tokens ++ operator :: right.tokens
  | .call callee paren arguments =>
      callee.tokens ++ .plain .leftParen :: Token.separated (tokensAll arguments) ++ [paren]
  | .grouping inner => .plain .leftParen :: inner.tokens ++ [.plain .rightParen]
  | .literal value => [value.token]
  | .logical left operator right => left.tokens ++ operator :: right.tokens
  | .unary operator operand => operator :: operand.tokens
  | .identifier name => [name]

def tokensAll : List Expr → List (List Token)
  | [] => []
  | e :: es => e.tokens :: tokensAll es

end

theorem tokensAll_eq (es : List Expr) : tokensAll es = es.map tokens := by
  induction es with
  | nil => rfl
  | cons e es ih => rw [tokensAll, ih, List.map_cons]

theorem writtenAll_eq (es : List Expr) : writtenAll es = es.map written := by
  induction es with
  | nil => rfl
  | cons e es ih => rw [writtenAll, ih, List.map_cons]

end Expr

namespace Stmt

mutual

/-- The tokens that the statement is written as, in order. -/
def tokens : Stmt → List Token
  | .block statements => .plain .leftBrace :: tokensAll statements ++ [.plain .rightBrace]
  | .expression value => value.tokens ++ [.plain .semicolon]
  | .function name params body =>
      .plain .kwFun :: name :: .plain .leftParen :: Token.separated (params.map ([·])) ++
        .plain .rightParen :: .plain .leftBrace :: tokensAll body ++ [.plain .rightBrace]
  | .ifThen condition thenBranch =>
      .plain .kwIf :: .plain .leftParen :: condition.tokens ++
        .plain .rightParen :: thenBranch.tokens
  | .ifElse condition thenBranch elseBranch =>
      .plain .kwIf :: .plain .leftParen :: condition.tokens ++
        .plain .rightParen :: thenBranch.tokens ++ .plain .kwElse :: elseBranch.tokens
  | .print value => .plain .kwPrint :: value.tokens ++ [.plain .semicolon]
  | .returns keyword none => [keyword, .plain .semicolon]
  | .returns keyword (some value) => keyword :: value.tokens ++ [.plain .semicolon]
  | .var name initial =>
      .plain .kwVar :: name :: .plain .equal :: initial.tokens ++ [.plain .semicolon]
  | .whileLoop condition body =>
      .plain .kwWhile :: .plain .leftParen :: condition.tokens ++
        .plain .rightParen :: body.tokens

def tokensAll : List Stmt → List Token
  | [] => []
  | s :: ss => s.tokens ++ tokensAll ss

end

theorem tokensAll_eq (ss : List Stmt) : tokensAll ss = ss.flatMap tokens := by
  induction ss with
  | nil => rfl
  | cons s ss ih => rw [tokensAll, ih, List.flatMap_cons]

theorem writtenAll_eq (ss : List Stmt) : writtenAll ss = ss.map written := by
  induction ss with
  | nil => rfl
  | cons s ss ih => rw [writtenAll, ih, List.map_cons]

end Stmt

/-- The tokens that the program is written as, in order. -/
def Program.tokens (program : Program) : List Token := program.flatMap Stmt.tokens

/-! ## Trees that can be written -/

/-- The expression keeps tokens that scanning makes, of a kind that fits where
they stand, and literals that have a spelling. -/
inductive Expr.Writable : Expr → Prop
  | assign {name : Token} {value : Expr} :
      name.Is .identifier → value.Writable → Writable (.assign name value)
  | binary {left right : Expr} {operator : Token} :
      left.Writable → operator.Genuine → operator.kind ≠ .eof → right.Writable →
      Writable (.binary left operator right)
  | call {callee : Expr} {paren : Token} {arguments : List Expr} :
      callee.Writable → (∀ e ∈ arguments, e.Writable) → paren.Is .rightParen →
      Writable (.call callee paren arguments)
  | grouping {inner : Expr} : inner.Writable → Writable (.grouping inner)
  | literal {value : Literal} : value.Writable → Writable (.literal value)
  | logical {left right : Expr} {operator : Token} :
      left.Writable → operator.Genuine → operator.kind ≠ .eof → right.Writable →
      Writable (.logical left operator right)
  | unary {operator : Token} {operand : Expr} :
      operator.Genuine → operator.kind ∈ [Token.Kind.bang, .minus] → operand.Writable →
      Writable (.unary operator operand)
  | identifier {name : Token} : name.Is .identifier → Writable (.identifier name)

/-- So does the statement. -/
inductive Stmt.Writable : Stmt → Prop
  | block {statements : List Stmt} : (∀ s ∈ statements, s.Writable) →
      Writable (.block statements)
  | expression {value : Expr} : value.Writable → Writable (.expression value)
  | function {name : Token} {params : List Token} {body : List Stmt} :
      name.Is .identifier → (∀ param ∈ params, param.Is .identifier) →
      (∀ s ∈ body, s.Writable) → Writable (.function name params body)
  | ifThen {condition : Expr} {thenBranch : Stmt} :
      condition.Writable → thenBranch.Writable → Writable (.ifThen condition thenBranch)
  | ifElse {condition : Expr} {thenBranch elseBranch : Stmt} :
      condition.Writable → thenBranch.Writable → elseBranch.Writable →
      Writable (.ifElse condition thenBranch elseBranch)
  | print {value : Expr} : value.Writable → Writable (.print value)
  | returns {keyword : Token} {value : Option Expr} :
      keyword.Is .kwReturn → (∀ e ∈ value, e.Writable) → Writable (.returns keyword value)
  | var {name : Token} {initial : Expr} :
      name.Is .identifier → initial.Writable → Writable (.var name initial)
  | whileLoop {condition : Expr} {body : Stmt} :
      condition.Writable → body.Writable → Writable (.whileLoop condition body)

/-- So does every statement of the program. -/
def Program.Writable (program : Program) : Prop := ∀ s ∈ program, s.Writable

end Scriptlet
