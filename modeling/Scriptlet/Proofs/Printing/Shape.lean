/-
# Trees in the shape of the grammar

`Fits` and `FitsStmt` say of a tree alone, without any tokens around it, that
its nodes stand where the grammar lets them stand: an operand is of a rank that
its operator takes, a declaration stands directly in a block, the branch before
an `else` does not end in an `if` without one, a `return` has a function around
it, and no list of arguments or parameters is longer than 255.  `depth` counts
the levels that a tree opens.

A tree that fits, whose tokens can be written and whose numbers are finite, is
derived by the grammar from its own tokens, with as many levels as it opens.
-/
import Scriptlet.Proofs.Parsing.Grammar
import Scriptlet.Proofs.Printing.Tokens

namespace Scriptlet

open Grammar

/-! ## Levels -/

namespace Expr

mutual

/-- The levels that the expression opens at once, besides the one that it is
itself. -/
def depth : Expr → Nat
  | .assign _ value => value.depth
  | .binary left _ right => max left.depth right.depth
  | .call callee _ arguments => max callee.depth (depthAll arguments)
  | .grouping inner => inner.depth + 1
  | .literal _ => 0
  | .logical left _ right => max left.depth right.depth
  | .unary _ operand => operand.depth + 1
  | .identifier _ => 0

/-- The levels that the expressions open at once, each of them being one. -/
def depthAll : List Expr → Nat
  | [] => 0
  | e :: es => max (e.depth + 1) (depthAll es)

end

theorem depthAll_le_iff {es : List Expr} {levels : Nat} :
    depthAll es ≤ levels ↔ ∀ e ∈ es, e.depth + 1 ≤ levels := by
  induction es with
  | nil => simp [depthAll]
  | cons e es ih => rw [depthAll, Nat.max_le, ih, List.forall_mem_cons]

end Expr

namespace Stmt

mutual

/-- The levels that the statement opens at once, with the one that it is itself;
a variable declaration is none. -/
def depth : Stmt → Nat
  | .block statements => depthAll statements + 1
  | .expression value => value.depth + 1 + 1
  | .function _ _ body => depthAll body + 1
  | .ifThen condition thenBranch => max (condition.depth + 1) thenBranch.depth + 1
  | .ifElse condition thenBranch elseBranch =>
      max (condition.depth + 1) (max thenBranch.depth elseBranch.depth) + 1
  | .print value => value.depth + 1 + 1
  | .returns _ none => 1
  | .returns _ (some value) => value.depth + 1 + 1
  | .var _ initial => initial.depth + 1
  | .whileLoop condition body => max (condition.depth + 1) body.depth + 1

def depthAll : List Stmt → Nat
  | [] => 0
  | s :: ss => max s.depth (depthAll ss)

end

theorem depthAll_le_iff {ss : List Stmt} {levels : Nat} :
    depthAll ss ≤ levels ↔ ∀ s ∈ ss, s.depth ≤ levels := by
  induction ss with
  | nil => simp [depthAll]
  | cons s ss ih => rw [depthAll, Nat.max_le, ih, List.forall_mem_cons]

end Stmt

/-- The levels that the program opens at once. -/
def Program.depth (program : Program) : Nat := Stmt.depthAll program

/-! ## Numbers -/

def Literal.numbers : Literal → List Float
  | .number value => [value]
  | _ => []

namespace Expr

mutual

/-- The number literals in the expression. -/
def numbers : Expr → List Float
  | .assign _ value => value.numbers
  | .binary left _ right => left.numbers ++ right.numbers
  | .call callee _ arguments => callee.numbers ++ numbersAll arguments
  | .grouping inner => inner.numbers
  | .literal value => value.numbers
  | .logical left _ right => left.numbers ++ right.numbers
  | .unary _ operand => operand.numbers
  | .identifier _ => []

def numbersAll : List Expr → List Float
  | [] => []
  | e :: es => e.numbers ++ numbersAll es

end

theorem numbersAll_eq (es : List Expr) : numbersAll es = es.flatMap numbers := by
  induction es with
  | nil => rfl
  | cons e es ih => rw [numbersAll, ih, List.flatMap_cons]

end Expr

namespace Stmt

mutual

/-- The number literals in the statement. -/
def numbers : Stmt → List Float
  | .block statements => numbersAll statements
  | .expression value => value.numbers
  | .function _ _ body => numbersAll body
  | .ifThen condition thenBranch => condition.numbers ++ thenBranch.numbers
  | .ifElse condition thenBranch elseBranch =>
      condition.numbers ++ thenBranch.numbers ++ elseBranch.numbers
  | .print value => value.numbers
  | .returns _ none => []
  | .returns _ (some value) => value.numbers
  | .var _ initial => initial.numbers
  | .whileLoop condition body => condition.numbers ++ body.numbers

def numbersAll : List Stmt → List Float
  | [] => []
  | s :: ss => s.numbers ++ numbersAll ss

end

theorem numbersAll_eq (ss : List Stmt) : numbersAll ss = ss.flatMap numbers := by
  induction ss with
  | nil => rfl
  | cons s ss ih => rw [numbersAll, ih, List.flatMap_cons]

end Stmt

/-- The number literals in the program. -/
def Program.numbers (program : Program) : List Float := program.flatMap Stmt.numbers

/-! ## Shape -/

namespace Grammar

/-- `Fits symbol e`: the tree stands where the grammar has the symbol. -/
inductive Fits : Symbol → Expr → Prop
  | expression {e : Expr} : Fits .assignment e → Fits .expression e
  | assign {name : Token} {value : Expr} :
      Fits .assignment value → Fits .assignment (.assign name value)
  | unassigned {e : Expr} : Fits (.infixed .logicOr) e → Fits .assignment e
  | operand {rank : Rank} {e : Expr} : Fits rank.operand e → Fits (.infixed rank) e
  | infixed {rank : Rank} {operator : Token} {left right : Expr} :
      Fits (.infixed rank) left → operator.kind ∈ rank.operators → Fits rank.operand right →
      Fits (.infixed rank) (rank.node left operator right)
  | prefixed {operator : Token} {operand : Expr} :
      operator.kind ∈ [Token.Kind.bang, .minus] → Fits .unary operand →
      Fits .unary (.unary operator operand)
  | unprefixed {e : Expr} : Fits .call e → Fits .unary e
  | call {callee : Expr} {paren : Token} {arguments : List Expr} :
      Fits .call callee → (∀ e ∈ arguments, Fits .expression e) → arguments.length ≤ 255 →
      Fits .call (.call callee paren arguments)
  | uncalled {e : Expr} : Fits .primary e → Fits .call e
  | literal {value : Literal} : Fits .primary (.literal value)
  | identifier {name : Token} : Fits .primary (.identifier name)
  | grouping {inner : Expr} : Fits .expression inner → Fits .primary (.grouping inner)

/-- `FitsStmt inFunction form s`: the tree stands where the grammar has a
declaration or a statement, `inFunction` saying whether a function body is open
around it. -/
inductive FitsStmt : Bool → Form → Stmt → Prop
  | var {inFunction : Bool} {name : Token} {initial : Expr} :
      Fits .expression initial → FitsStmt inFunction .declaration (.var name initial)
  | statement {inFunction dangling : Bool} {s : Stmt} :
      FitsStmt inFunction (.statement dangling) s → FitsStmt inFunction .declaration s
  | expression {inFunction : Bool} {value : Expr} :
      Fits .expression value → FitsStmt inFunction (.statement false) (.expression value)
  | print {inFunction : Bool} {value : Expr} :
      Fits .expression value → FitsStmt inFunction (.statement false) (.print value)
  | block {inFunction : Bool} {statements : List Stmt} :
      (∀ s ∈ statements, FitsStmt inFunction .declaration s) →
      FitsStmt inFunction (.statement false) (.block statements)
  | ifThen {inFunction dangling : Bool} {condition : Expr} {thenBranch : Stmt} :
      Fits .expression condition → FitsStmt inFunction (.statement dangling) thenBranch →
      FitsStmt inFunction (.statement true) (.ifThen condition thenBranch)
  | ifElse {inFunction dangling : Bool} {condition : Expr} {thenBranch elseBranch : Stmt} :
      Fits .expression condition → FitsStmt inFunction (.statement false) thenBranch →
      FitsStmt inFunction (.statement dangling) elseBranch →
      FitsStmt inFunction (.statement dangling) (.ifElse condition thenBranch elseBranch)
  | whileLoop {inFunction dangling : Bool} {condition : Expr} {body : Stmt} :
      Fits .expression condition → FitsStmt inFunction (.statement dangling) body →
      FitsStmt inFunction (.statement dangling) (.whileLoop condition body)
  | function {inFunction : Bool} {name : Token} {params : List Token} {body : List Stmt} :
      params.length ≤ 255 → (∀ s ∈ body, FitsStmt true .declaration s) →
      FitsStmt inFunction (.statement false) (.function name params body)
  | returns {keyword : Token} {value : Option Expr} :
      (∀ e ∈ value, Fits .expression e) →
      FitsStmt true (.statement false) (.returns keyword value)

/-- Every statement of the program stands as a declaration outside of functions. -/
def FitsProgram (program : Program) : Prop := ∀ s ∈ program, FitsStmt false .declaration s

/-! ## The two operator nodes at once -/

namespace Rank

variable (rank : Rank) (left right : Expr) (operator : Token)

theorem node_tokens :
    (rank.node left operator right).tokens = left.tokens ++ operator :: right.tokens := by
  cases rank <;> rfl

theorem node_depth : (rank.node left operator right).depth = max left.depth right.depth := by
  cases rank <;> rfl

theorem node_numbers :
    (rank.node left operator right).numbers = left.numbers ++ right.numbers := by
  cases rank <;> rfl

theorem node_writable : (rank.node left operator right).Writable ↔
    left.Writable ∧ operator.Genuine ∧ operator.kind ≠ .eof ∧ right.Writable := by
  constructor
  · intro h
    cases rank with
    | logicOr | logicAnd =>
        cases h with
        | logical left genuine real right => exact ⟨left, genuine, real, right⟩
    | equality | comparison | addition | multiplication =>
        cases h with
        | binary left genuine real right => exact ⟨left, genuine, real, right⟩
  · intro ⟨left, genuine, real, right⟩
    cases rank with
    | logicOr | logicAnd => exact .logical left genuine real right
    | equality | comparison | addition | multiplication =>
        exact .binary left genuine real right

end Rank

/-! ## A tree that fits is derived from its tokens -/

/-- The levels that a tree opens where the symbol stands. -/
def Symbol.levels : Symbol → Expr → Nat
  | expression, e => e.depth + 1
  | assignment, e | infixed _, e | unary, e | call, e | primary, e => e.depth

@[simp] theorem Rank.operand_levels (rank : Rank) (e : Expr) :
    rank.operand.levels e = e.depth := by
  cases rank <;> rfl

/-- Where a tree opens one level, and others in it, one level can be opened. -/
theorem opens_level {inner levels : Nat} (h : inner + 1 ≤ levels) :
    ∃ rest, levels = rest + 1 ∧ inner ≤ rest := by
  obtain ⟨rest, rfl⟩ := Nat.exists_eq_add_of_le' (Nat.le_trans (Nat.le_add_left 1 _) h)
  exact ⟨rest, rfl, Nat.le_of_succ_le_succ h⟩

theorem Separated.separated (parts : List (List Token)) :
    Separated parts (Token.separated parts) := by
  induction parts with
  | nil => exact .none
  | cons part parts ih =>
      cases parts with
      | nil => exact .one part
      | cons next parts => exact .more rfl ih

end Grammar

/-- A literal other than infinity has a token that carries it. -/
theorem Literal.token_carries {value : Literal} (h : ∀ x ∈ value.numbers, x.isFinite = true) :
    value.token.kind ∈ literalKinds ∧ value.token.literal = some value := by
  cases value with
  | nil => exact ⟨by decide, rfl⟩
  | boolean value => cases value <;> exact ⟨by decide, rfl⟩
  | number x =>
      rw [token_finite (h x List.mem_cons_self)]
      exact ⟨by simp [literalKinds], rfl⟩
  | string value => exact ⟨by simp [literalKinds, token], rfl⟩

namespace Grammar

theorem Fits.derives {symbol : Symbol} {e : Expr} (h : Fits symbol e) :
    ∀ {levels : Nat}, e.Writable → (∀ x ∈ e.numbers, x.isFinite = true) →
      symbol.levels e ≤ levels → Derives levels symbol e.tokens e := by
  induction h with
  | expression _ ih =>
      intro levels writable finite deep
      obtain ⟨levels, rfl, room⟩ := opens_level deep
      exact .expression (ih writable finite room)
  | assign _ ih =>
      intro levels writable finite deep
      cases writable with
      | assign name value => exact .assign name.2 rfl (ih value finite deep)
  | unassigned _ ih =>
      intro levels writable finite deep
      exact .unassigned (ih writable finite deep)
  | @operand rank e _ ih =>
      intro levels writable finite deep
      refine .operand (ih writable finite ?_)
      rw [rank.operand_levels]
      exact deep
  | @infixed rank operator left right _ member _ ihLeft ihRight =>
      intro levels writable finite deep
      obtain ⟨leftWritable, -, -, rightWritable⟩ :=
        (rank.node_writable left right operator).1 writable
      rw [rank.node_numbers] at finite
      obtain ⟨leftFinite, rightFinite⟩ := List.forall_mem_append.1 finite
      have bounds : max left.depth right.depth ≤ levels := by
        rw [← rank.node_depth left right operator]
        exact deep
      obtain ⟨leftDeep, rightDeep⟩ := Nat.max_le.1 bounds
      rw [rank.node_tokens]
      refine .infixed (ihLeft leftWritable leftFinite leftDeep) member
        (ihRight rightWritable rightFinite ?_)
      rw [rank.operand_levels]
      exact rightDeep
  | prefixed member _ ih =>
      intro levels writable finite deep
      obtain ⟨levels, rfl, room⟩ := opens_level deep
      cases writable with
      | unary _ _ operand =>
          exact .prefixed member (ih operand finite room)
  | unprefixed _ ih =>
      intro levels writable finite deep
      exact .unprefixed (ih writable finite deep)
  | @call callee paren arguments _ _ few ih ihs =>
      intro levels writable finite deep
      cases writable with
      | call calleeWritable each closing =>
          obtain ⟨calleeFinite, insideFinite⟩ := List.forall_mem_append.1 finite
          rw [Expr.numbersAll_eq] at insideFinite
          obtain ⟨calleeDeep, insideDeep⟩ := Nat.max_le.1 deep
          rw [Expr.depthAll_le_iff] at insideDeep
          have inside : ∀ argument ∈ arguments.map (fun e => (e.tokens, e)),
              Derives levels .expression argument.1 argument.2 := by
            intro argument listed
            obtain ⟨e, member, rfl⟩ := List.mem_map.1 listed
            refine ihs e member (each e member) (fun x mine => ?_) (insideDeep e member)
            exact insideFinite x (List.mem_flatMap.2 ⟨e, member, mine⟩)
          have parts : (arguments.map (fun e => (e.tokens, e))).map (·.1) =
              Expr.tokensAll arguments := by
            rw [Expr.tokensAll_eq, List.map_map]
            rfl
          have trees : (arguments.map (fun e => (e.tokens, e))).map (·.2) = arguments := by
            rw [List.map_map]
            exact List.map_id arguments
          have commas : Separated ((arguments.map (fun e => (e.tokens, e))).map (·.1))
              (Token.separated (Expr.tokensAll arguments)) := by
            rw [parts]
            exact .separated _
          have whole := Derives.call (ih calleeWritable calleeFinite calleeDeep)
            (Token.plain_kind .leftParen) inside commas (by rwa [List.length_map]) closing.2
          rw [trees] at whole
          exact whole
  | uncalled _ ih =>
      intro levels writable finite deep
      exact .uncalled (ih writable finite deep)
  | literal =>
      intro levels writable finite deep
      obtain ⟨kind, carries⟩ := Literal.token_carries finite
      exact .literal kind carries
  | identifier =>
      intro levels writable finite deep
      cases writable with
      | identifier name => exact .identifier name.2
  | grouping _ ih =>
      intro levels writable finite deep
      cases writable with
      | grouping inner => exact .grouping rfl (ih inner finite deep) rfl

/-- Declarations that are derived from their tokens, listed with them. -/
theorem listed_declarations {levels : Nat} {inFunction : Bool} {statements : List Stmt}
    (h : ∀ s ∈ statements, DerivesStmt levels inFunction .declaration s.tokens s) :
    ∃ declarations : List (List Token × Stmt),
      (∀ d ∈ declarations, DerivesStmt levels inFunction .declaration d.1 d.2) ∧
      declarations.flatMap (·.1) = statements.flatMap Stmt.tokens ∧
      declarations.map (·.2) = statements := by
  refine ⟨statements.map (fun s => (s.tokens, s)), ?_, ?_, ?_⟩
  · intro d listed
    obtain ⟨s, member, rfl⟩ := List.mem_map.1 listed
    exact h s member
  · rw [List.flatMap_map]
  · rw [List.map_map]
    exact List.map_id statements

theorem FitsStmt.derives {inFunction : Bool} {form : Form} {s : Stmt}
    (h : FitsStmt inFunction form s) :
    ∀ {levels : Nat}, s.Writable → (∀ x ∈ s.numbers, x.isFinite = true) → s.depth ≤ levels →
      DerivesStmt levels inFunction form s.tokens s := by
  induction h with
  | var initial =>
      intro levels writable finite deep
      cases writable with
      | var name value =>
          exact .var (.initialized rfl name.2 rfl (initial.derives value finite deep) rfl)
  | statement _ ih =>
      intro levels writable finite deep
      exact .statement (ih writable finite deep)
  | expression value =>
      intro levels writable finite deep
      obtain ⟨levels, rfl, room⟩ := opens_level deep
      cases writable with
      | expression writable =>
          exact .expression (.intro (value.derives writable finite room) rfl)
  | print value =>
      intro levels writable finite deep
      obtain ⟨levels, rfl, room⟩ := opens_level deep
      cases writable with
      | print writable =>
          exact .print rfl (value.derives writable finite room) rfl
  | @block inFunction statements _ ihs =>
      intro levels writable finite deep
      obtain ⟨levels, rfl, room⟩ := opens_level deep
      have insideDeep := Stmt.depthAll_le_iff.1 room
      cases writable with
      | block each =>
          have finite : ∀ x ∈ Stmt.numbersAll statements, x.isFinite = true := finite
          rw [Stmt.numbersAll_eq] at finite
          obtain ⟨declarations, derived, same, trees⟩ := listed_declarations fun s member =>
            ihs s member (each s member)
              (fun x mine => finite x (List.mem_flatMap.2 ⟨s, member, mine⟩)) (insideDeep s member)
          rw [Stmt.tokens, Stmt.tokensAll_eq, ← same, ← trees]
          exact .block rfl derived rfl
  | ifThen condition _ ih =>
      intro levels writable finite deep
      obtain ⟨levels, rfl, room⟩ := opens_level deep
      obtain ⟨conditionDeep, thenDeep⟩ := Nat.max_le.1 room
      obtain ⟨conditionFinite, thenFinite⟩ := List.forall_mem_append.1 finite
      cases writable with
      | ifThen conditionWritable thenWritable =>
          exact .ifThen rfl rfl (condition.derives conditionWritable conditionFinite conditionDeep)
            rfl (ih thenWritable thenFinite thenDeep)
  | ifElse condition _ _ ihThen ihElse =>
      intro levels writable finite deep
      obtain ⟨levels, rfl, room⟩ := opens_level deep
      obtain ⟨conditionDeep, branchesDeep⟩ := Nat.max_le.1 room
      obtain ⟨thenDeep, elseDeep⟩ := Nat.max_le.1 branchesDeep
      obtain ⟨finite, elseFinite⟩ := List.forall_mem_append.1 finite
      obtain ⟨conditionFinite, thenFinite⟩ := List.forall_mem_append.1 finite
      cases writable with
      | ifElse conditionWritable thenWritable elseWritable =>
          exact .ifElse rfl rfl (condition.derives conditionWritable conditionFinite conditionDeep)
            rfl (ihThen thenWritable thenFinite thenDeep) rfl
            (ihElse elseWritable elseFinite elseDeep)
  | whileLoop condition _ ih =>
      intro levels writable finite deep
      obtain ⟨levels, rfl, room⟩ := opens_level deep
      obtain ⟨conditionDeep, bodyDeep⟩ := Nat.max_le.1 room
      obtain ⟨conditionFinite, bodyFinite⟩ := List.forall_mem_append.1 finite
      cases writable with
      | whileLoop conditionWritable bodyWritable =>
          exact .whileLoop rfl rfl
            (condition.derives conditionWritable conditionFinite conditionDeep) rfl
            (ih bodyWritable bodyFinite bodyDeep)
  | @function inFunction name params body few _ ihs =>
      intro levels writable finite deep
      obtain ⟨levels, rfl, room⟩ := opens_level deep
      have insideDeep := Stmt.depthAll_le_iff.1 room
      cases writable with
      | function is each inside =>
          have finite : ∀ x ∈ Stmt.numbersAll body, x.isFinite = true := finite
          rw [Stmt.numbersAll_eq] at finite
          obtain ⟨declarations, derived, same, trees⟩ := listed_declarations fun s member =>
            ihs s member (inside s member)
              (fun x mine => finite x (List.mem_flatMap.2 ⟨s, member, mine⟩)) (insideDeep s member)
          rw [Stmt.tokens, Stmt.tokensAll_eq, ← same, ← trees]
          exact .function rfl is.2 rfl (fun param member => (each param member).2)
            (.separated _) few rfl rfl derived rfl
  | @returns keyword value fits =>
      intro levels writable finite deep
      cases writable with
      | returns is writable =>
          cases value with
          | none =>
              obtain ⟨levels, rfl, -⟩ := opens_level deep
              exact .returns is.2 .absent rfl
          | some value =>
              obtain ⟨levels, rfl, room⟩ := opens_level deep
              have derived := (fits value rfl).derives (writable value rfl) finite room
              exact .returns is.2 (.present derived) rfl

/-- A program that fits is derived from its tokens. -/
theorem FitsProgram.derives {program : Program} (fits : FitsProgram program)
    (writable : program.Writable) (finite : ∀ x ∈ program.numbers, x.isFinite = true)
    {levels : Nat} (deep : program.depth ≤ levels) :
    DerivesWithin levels program.tokens program := by
  have each := Stmt.depthAll_le_iff.1 deep
  obtain ⟨declarations, derived, same, trees⟩ := listed_declarations fun s member =>
    (fits s member).derives (writable s member)
      (fun x mine => finite x (List.mem_flatMap.2 ⟨s, member, mine⟩)) (each s member)
  unfold Program.tokens
  rw [← same]
  have whole := DerivesWithin.intro derived
  rw [trees] at whole
  exact whole

end Grammar

end Scriptlet
