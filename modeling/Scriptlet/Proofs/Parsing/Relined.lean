/-
# Programs further down and one after another

Tokens on other lines are derived as the tree on other lines, and the tokens of
two programs, one after the other, as the programs one after the other: at the
top level there are only declarations, and nothing is open between two of them.
-/
import Scriptlet.Proofs.Parsing.Grammar
import Scriptlet.Proofs.Tree.Relined

namespace Scriptlet

namespace Grammar

variable {φ : Nat → Nat} {levels : Nat} {inFunction : Bool} {tokens tokens' : List Token}

/-! ## Expressions -/

theorem Separated.relined (φ : Nat → Nat) {parts : List (List Token)}
    (h : Separated parts tokens) :
    Separated (parts.map (List.map (Token.relined φ))) (tokens.map (Token.relined φ)) := by
  induction h with
  | none => exact .none
  | one part => exact .one _
  | more comma _ ih =>
      rw [List.map_append, List.map_cons]
      exact .more comma ih

theorem Rank.node_relined (rank : Rank) (left : Expr) (operator : Token) (right : Expr) :
    (rank.node left operator right).relined φ =
      rank.node (left.relined φ) (operator.relined φ) (right.relined φ) := by
  cases rank <;> rfl

/-- Tokens on other lines with what `move` makes of their tree. -/
def relinedPart {α : Type} (φ : Nat → Nat) (move : α → α) (part : List Token × α) :
    List Token × α :=
  (part.1.map (Token.relined φ), move part.2)

theorem Derives.relined {symbol : Symbol} {e : Expr} (h : Derives levels symbol tokens e) :
    Derives levels symbol (tokens.map (Token.relined φ)) (e.relined φ) := by
  induction h with
  | expression _ ih => exact .expression ih
  | assign name equals _ ih => exact .assign name equals ih
  | unassigned _ ih => exact .unassigned ih
  | operand _ ih => exact .operand ih
  | infixed _ member _ ihLeft ihRight =>
      rw [List.map_append, List.map_cons, Rank.node_relined]
      exact .infixed ihLeft member ihRight
  | prefixed member _ ih => exact .prefixed member ih
  | unprefixed _ ih => exact .unprefixed ih
  | @call levels tokens inner opening closing callee arguments _ opens _ separated few closes ih
      ihs =>
      have each : ∀ argument ∈ arguments.map (relinedPart φ (Expr.relined φ)),
          Derives levels .expression argument.1 argument.2 := List.forall_mem_map.2 ihs
      have trees : Expr.relinedAll φ (arguments.map (·.2)) =
          (arguments.map (relinedPart φ (Expr.relined φ))).map (·.2) := by
        rw [Expr.relinedAll_eq, List.map_map, List.map_map]
        rfl
      have separated' := separated.relined φ
      rw [List.map_map] at separated'
      rw [List.map_append, List.map_append, List.map_cons, Expr.relined, trees]
      refine .call ih opens each ?_ (by rwa [List.length_map]) closes
      rw [List.map_map]
      exact separated'
  | uncalled _ ih => exact .uncalled ih
  | literal member carries => exact .literal member carries
  | identifier name => exact .identifier name
  | grouping opens _ closes ih =>
      rw [List.map_append, List.map_cons]
      exact .grouping opens ih closes

/-! ## Clauses -/

theorem VarDecl.relined {s : Stmt} (h : VarDecl levels tokens s) :
    VarDecl levels (tokens.map (Token.relined φ)) (s.relined φ) := by
  cases h with
  | plain opens name ends => exact .plain opens name ends
  | initialized opens name equals derived ends =>
      rw [List.map_append, List.map_cons, List.map_cons, List.map_cons]
      exact .initialized opens name equals derived.relined ends

theorem ExprStmt.relined {s : Stmt} (h : ExprStmt levels tokens s) :
    ExprStmt levels (tokens.map (Token.relined φ)) (s.relined φ) := by
  cases h with
  | intro derived ends =>
      rw [List.map_append]
      exact .intro derived.relined ends

theorem ForInitial.relined {initial : Option Stmt} (h : ForInitial levels tokens initial) :
    ForInitial levels (tokens.map (Token.relined φ)) (initial.map (Stmt.relined φ)) := by
  cases h with
  | absent ends => exact .absent ends
  | var declared => exact .var declared.relined
  | expression derived => exact .expression derived.relined

theorem OptExpression.relined {value : Option Expr} (h : OptExpression levels tokens value) :
    OptExpression levels (tokens.map (Token.relined φ)) (value.map (Expr.relined φ)) := by
  cases h with
  | absent => exact .absent
  | present derived => exact .present derived.relined

theorem loopTree_relined (initial : Option Stmt) (condition : Expr) (increment : Option Expr)
    (body : Stmt) : (loopTree initial condition increment body).relined φ =
      loopTree (initial.map (Stmt.relined φ)) (condition.relined φ)
        (increment.map (Expr.relined φ)) (body.relined φ) := by
  cases initial <;> cases increment <;> rfl

theorem getD_relined (condition : Option Expr) :
    (condition.getD (.literal (.boolean true))).relined φ =
      (condition.map (Expr.relined φ)).getD (.literal (.boolean true)) := by
  cases condition <;> rfl

/-! ## Statements -/

section

variable (φ : Nat → Nat) (declarations : List (List Token × Stmt))

theorem flatMap_relined : (declarations.flatMap (·.1)).map (Token.relined φ) =
    (declarations.map (relinedPart φ (Stmt.relined φ))).flatMap (·.1) := by
  rw [List.map_flatMap, List.flatMap_map]
  rfl

theorem trees_relined : Stmt.relinedAll φ (declarations.map (·.2)) =
    (declarations.map (relinedPart φ (Stmt.relined φ))).map (·.2) := by
  rw [Stmt.relinedAll_eq, List.map_map, List.map_map]
  rfl

end

theorem DerivesStmt.relined {form : Form} {s : Stmt}
    (h : DerivesStmt levels inFunction form tokens s) :
    DerivesStmt levels inFunction form (tokens.map (Token.relined φ)) (s.relined φ) := by
  induction h with
  | var declared => exact .var declared.relined
  | statement _ ih => exact .statement ih
  | expression derived => exact .expression derived.relined
  | print opens derived ends =>
      rw [List.map_append, List.map_cons]
      exact .print opens derived.relined ends
  | @block levels inFunction _ _ declarations opens _ closes ihs =>
      rw [List.map_append, List.map_cons, flatMap_relined, Stmt.relined, trees_relined]
      exact .block opens (List.forall_mem_map.2 ihs) closes
  | ifThen keyword opens condition closes _ ih =>
      rw [List.map_append, List.map_cons, List.map_cons, List.map_cons]
      exact .ifThen keyword opens condition.relined closes ih
  | ifElse keyword opens condition closes _ elseToken _ ihThen ihElse =>
      rw [List.map_append, List.map_append, List.map_cons, List.map_cons, List.map_cons,
        List.map_cons]
      exact .ifElse keyword opens condition.relined closes ihThen elseToken ihElse
  | whileLoop keyword opens condition closes _ ih =>
      rw [List.map_append, List.map_cons, List.map_cons, List.map_cons]
      exact .whileLoop keyword opens condition.relined closes ih
  | forLoop keyword opens initial condition ends increment closes _ ih =>
      rw [List.map_append, List.map_append, List.map_append, List.map_cons, List.map_cons,
        List.map_cons, List.map_cons, loopTree_relined, getD_relined]
      exact .forLoop keyword opens initial.relined condition.relined ends increment.relined closes
        ih
  | @function levels _ _ _ _ _ _ _ params inner declarations keyword name opens names separated
      few closes bodyOpens _ bodyCloses ihs =>
      have names' : ∀ param ∈ params.map (Token.relined φ), param.kind = .identifier :=
        List.forall_mem_map.2 names
      have separated' := separated.relined φ
      rw [List.map_map] at separated'
      rw [List.map_append, List.map_append, List.map_cons, List.map_cons, List.map_cons,
        List.map_cons, List.map_cons, flatMap_relined, Stmt.relined, trees_relined]
      refine .function keyword name opens names' ?_ (by rwa [List.length_map]) closes bodyOpens
        (List.forall_mem_map.2 ihs) bodyCloses
      rw [List.map_map]
      exact separated'
  | returns keyword value ends =>
      rw [List.map_append, List.map_cons]
      exact .returns keyword value.relined ends

/-! ## Programs -/

/-- On other lines, the tokens of a program are derived as the program there. -/
theorem DerivesWithin.relined {program : Program} (h : DerivesWithin levels tokens program) :
    DerivesWithin levels (tokens.map (Token.relined φ)) (program.relined φ) := by
  cases h with
  | @intro declarations each =>
      have trees := trees_relined φ declarations
      rw [Stmt.relinedAll_eq] at trees
      rw [flatMap_relined]
      unfold Program.relined
      rw [trees]
      exact .intro (List.forall_mem_map.2 fun d member => (each d member).relined)

/-- One program after another. -/
theorem DerivesWithin.append {program program' : Program}
    (h : DerivesWithin levels tokens program) (h' : DerivesWithin levels tokens' program') :
    DerivesWithin levels (tokens ++ tokens') (program ++ program') := by
  cases h with
  | @intro declarations each =>
      cases h' with
      | @intro declarations' each' =>
          rw [← List.flatMap_append, ← List.map_append]
          exact .intro (List.forall_mem_append.2 ⟨each, each'⟩)

end Grammar

end Scriptlet
