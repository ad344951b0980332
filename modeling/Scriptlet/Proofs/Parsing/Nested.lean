/-
# How far down a tree goes

Whoever walks over a tree goes as far down as the longest way from its root, and so did
the rules that have read it.  A way into a statement goes from each level that a parse
opens to the next by a number of edges that no script can raise: at most three statements
where a `for` stands, and fewer where an expression does.  So the limit on nesting limits
all of it, except for two kinds of chains.

Operators of one rank and the calls of one callee group to the left, and the edges to what
is left of them open no level.  They are read in a loop.  But neither is a level opened by
an assignment that is the value of an assignment, and these group to the right: to read
`a = b = c`, the rule for assignments goes into itself, uncounted.  What the limit on
nesting says of a way is therefore said up to such edges (`Program.nesting_bounded`), and
there is no limit on them.
-/
import Scriptlet.Proofs.Parsing.Accepts
import Scriptlet.Proofs.Run.LoopFree

namespace Scriptlet

open Grammar

/-! ## Ways down a tree -/

/-- What an edge of a tree leads to. -/
inductive Edge where
  /-- A statement in a statement. -/
  | statement
  /-- An expression that a statement evaluates. -/
  | clause
  | grouping
  | argument
  /-- The operand of a prefix operator. -/
  | prefixed
  /-- The value of an assignment, if that is not an assignment itself. -/
  | value
  /-- The value of an assignment, if that is one, too. -/
  | chained
  /-- The left operand of an infix operator or the callee of a call. -/
  | left
  /-- The right operand of an infix operator. -/
  | right
deriving DecidableEq

namespace Edge

/-- The edges on which the rules and the printer go into themselves, other than to the
operands of infix operators and to callees. -/
def nests : Edge → Bool
  | statement | grouping | argument | prefixed | value | chained => true
  | clause | left | right => false

/-- The edges of which there can be any number without a level between them. -/
def chains : Edge → Bool
  | chained | left => true
  | _ => false

/-- The edge to the value of an assignment. -/
def toValue : Expr → Edge
  | .assign .. => chained
  | _ => value

end Edge

/-- A place in a tree, with all that is below it. -/
inductive Node where
  | expr (e : Expr)
  | stmt (s : Stmt)

/-- The edges down from a node and where they lead. -/
def Node.edges : Node → List (Edge × Node)
  | expr (.assign _ value) => [(.toValue value, expr value)]
  | expr (.binary left _ right) => [(.left, expr left), (.right, expr right)]
  | expr (.logical left _ right) => [(.left, expr left), (.right, expr right)]
  | expr (.call callee _ arguments) =>
      (.left, expr callee) :: arguments.map fun e => (.argument, expr e)
  | expr (.grouping inner) => [(.grouping, expr inner)]
  | expr (.unary _ operand) => [(.prefixed, expr operand)]
  | expr (.literal _) => []
  | expr (.identifier _) => []
  | stmt s =>
      (s.operands.map fun e => (.clause, expr e)) ++ s.parts.map fun part => (.statement, stmt part)

/-- The edges are those of a way from the node down to a leaf. -/
inductive Path : Node → List Edge → Prop
  | leaf {node : Node} : node.edges = [] → Path node []
  | step {node child : Node} {edge : Edge} {edges : List Edge} :
      (edge, child) ∈ node.edges → Path child edges → Path node (edge :: edges)

/-! ## Ways that leave something to spare -/

/-- With `slack` added, no way from the node crosses more than `most` edges that count. -/
def Node.Spares (counts : Edge → Bool) (slack most : Nat) (node : Node) : Prop :=
  ∀ edges, Path node edges → edges.countP counts + slack ≤ most

namespace Node.Spares

variable {counts : Edge → Bool} {slack slack' most most' : Nat} {node : Node}

/-- What each edge costs is spared by the node that it leads to. -/
theorem intro (least : node.edges = [] → slack ≤ most)
    (each : ∀ edge child, (edge, child) ∈ node.edges →
      Spares counts (slack + (counts edge).toNat) most child) :
    Spares counts slack most node := by
  rintro edges (none | ⟨member, path⟩)
  · rw [List.countP_nil, Nat.zero_add]
    exact least none
  · have below := each _ _ member _ path
    have cost : ∀ b : Bool, b.toNat = if b then 1 else 0 := fun b => Bool.cond_eq_ite b 1 0
    rw [cost] at below
    rw [List.countP_cons]
    omega

/-- A node with one edge. -/
theorem only {edge : Edge} {child : Node} (edges : node.edges = [(edge, child)])
    (h : Spares counts (slack + (counts edge).toNat) most child) :
    Spares counts slack most node := by
  refine .intro (by rw [edges]; nofun) ?_
  simp only [edges, List.mem_singleton, Prod.mk.injEq]
  rintro _ _ ⟨rfl, rfl⟩
  exact h

theorem mono (h : Spares counts slack most node) (less : slack' + most ≤ slack + most') :
    Spares counts slack' most' node := by
  intro edges path
  have below := h edges path
  omega

end Node.Spares

/-! ## Expressions -/

namespace Grammar

/-- How many ranks of infix operators are looser. -/
def Rank.looser : Rank → Nat
  | .logicOr => 0
  | .logicAnd => 1
  | .equality => 2
  | .comparison => 3
  | .addition => 4
  | .multiplication => 5

end Grammar

/-- Which edges are counted: none of those that can be there without a level. -/
structure Counting where
  counts : Edge → Bool
  unchained : ∀ edge, edge.chains → counts edge = false

namespace Counting

variable (counting : Counting)

/-- What a right operand costs. -/
def right : Nat := (counting.counts .right).toNat

/-- The most that an expression takes of a level: two edges to the value of an assignment
in parentheses and one to a right operand of each rank. -/
def perLevel : Nat := 2 + 6 * counting.right

/-- What an assignment and other expressions leave before the next edge to a value. -/
def beforeValue : Expr → Nat
  | .assign .. => 1
  | _ => 2

/-- What the expressions of a symbol leave of the level that is open around them. -/
def slack : Symbol → Expr → Nat
  | .expression, e => beforeValue e + counting.perLevel
  | .assignment, e => beforeValue e
  | .infixed rank, _ => 2 + rank.looser * counting.right
  | .unary, _ | .call, _ | .primary, _ => counting.perLevel

theorem one_le_perLevel : 1 ≤ counting.perLevel := by
  rw [perLevel]
  omega

theorem beforeValue_le (e : Expr) : beforeValue e ≤ 2 := by
  cases e <;> simp [beforeValue]

/-- An assignment leaves one edge less, but the edge to it does not count. -/
theorem toValue_le (e : Expr) :
    1 + (counting.counts (.toValue e)).toNat ≤ beforeValue e := by
  cases e with
  | assign name value => rw [Edge.toValue, counting.unchained .chained rfl]; exact Nat.le_refl 1
  | _ => exact Nat.add_le_add_left (Bool.toNat_le _) 1

theorem one_le_beforeValue (e : Expr) : 1 ≤ beforeValue e := by
  cases e <;> simp [beforeValue]

theorem slack_operand (rank : Rank) (e : Expr) :
    counting.slack (.infixed rank) e + counting.right ≤ counting.slack rank.operand e := by
  cases rank <;> simp only [slack, Rank.operand, Rank.looser, perLevel] <;> omega

end Counting

variable {counting : Counting} {levels : Nat} {inFunction : Bool} {tokens : List Token}

/-- There is room for any edge to a child that has opened a level. -/
theorem Node.Spares.opened {counts : Edge → Bool} {slack more most : Nat} {child : Node}
    (h : child.Spares counts (more + slack) most) (some : 1 ≤ more) (edge : Edge) :
    child.Spares counts (slack + (counts edge).toNat) most := by
  have one := Bool.toNat_le (counts edge)
  exact h.mono (by omega)

/-- Nothing is taken by an edge that can be there without a level. -/
theorem Node.Spares.chained {slack most : Nat} {child : Node}
    (h : child.Spares counting.counts slack most) {edge : Edge} (free : edge.chains) :
    child.Spares counting.counts (slack + (counting.counts edge).toNat) most := by
  rwa [counting.unchained edge free]

/-- A level is left by what has opened it. -/
theorem Node.Spares.deeper {slack levels : Nat} {child : Node}
    (h : child.Spares counting.counts slack (counting.perLevel * levels)) :
    child.Spares counting.counts (slack + counting.perLevel)
      (counting.perLevel * (levels + 1)) :=
  h.mono (by rw [Nat.mul_succ]; omega)

theorem Grammar.Rank.node_edges (rank : Rank) (left : Expr) (operator : Token) (right : Expr) :
    (Node.expr (rank.node left operator right)).edges =
      [(.left, .expr left), (.right, .expr right)] := by
  cases rank <;> rfl

theorem Grammar.Derives.spares {symbol : Symbol} {e : Expr} (h : Derives levels symbol tokens e) :
    Node.Spares counting.counts (counting.slack symbol e) (counting.perLevel * (levels + 1))
      (.expr e) := by
  induction h with
  | expression _ ih => exact ih.deeper
  | @assign _ _ _ _ value _ _ _ ih =>
      exact .only rfl (ih.mono (Nat.add_le_add_right (counting.toValue_le value) _))
  | @unassigned _ _ e _ ih =>
      have enough := Counting.beforeValue_le e
      rw [Counting.slack, Rank.looser, Nat.zero_mul] at ih
      exact ih.mono (Nat.add_le_add_right enough _)
  | @operand _ rank _ e _ ih =>
      have enough := counting.slack_operand rank e
      exact ih.mono (by omega)
  | @infixed _ rank _ _ operator left right _ _ _ ihLeft ihRight =>
      refine .intro (by rw [rank.node_edges]; nofun) ?_
      simp only [rank.node_edges, List.mem_cons, List.not_mem_nil, or_false, Prod.mk.injEq]
      rintro _ _ (⟨rfl, rfl⟩ | ⟨rfl, rfl⟩)
      · exact ihLeft.chained rfl
      · exact ihRight.mono (Nat.add_le_add_right (counting.slack_operand rank right) _)
  | prefixed _ _ ih => exact .only rfl (ih.deeper.opened counting.one_le_perLevel _)
  | unprefixed _ ih | uncalled _ ih => exact ih
  | call _ _ _ _ _ _ ih ihs =>
      refine .intro nofun ?_
      simp only [Node.edges, List.mem_cons, List.mem_map, Prod.mk.injEq]
      rintro _ _ (⟨rfl, rfl⟩ | ⟨_, ⟨argument, member, rfl⟩, rfl, rfl⟩)
      · exact ih.chained rfl
      · exact (ihs argument member).opened (Counting.one_le_beforeValue _) _
  | literal | identifier =>
      exact .intro (fun _ => Nat.le_mul_of_pos_right _ (Nat.succ_pos _)) nofun
  | grouping _ _ _ ih => exact .only rfl (ih.opened (Counting.one_le_beforeValue _) _)

/-! ## Statements -/

/-- A statement leaves what its expressions and the statements in it leave besides the
edges to them. -/
theorem Node.Spares.stmt {counts : Edge → Bool} {slack most : Nat} {s : Stmt}
    (least : slack ≤ most)
    (operands : ∀ e ∈ s.operands, Spares counts (slack + (counts .clause).toNat) most (.expr e))
    (parts : ∀ part ∈ s.parts, Spares counts (slack + 1) most (.stmt part)) :
    Spares counts slack most (.stmt s) := by
  refine .intro (fun _ => least) ?_
  simp only [edges, List.mem_append, List.mem_map, Prod.mk.injEq]
  rintro _ _ (⟨e, member, rfl, rfl⟩ | ⟨part, member, rfl, rfl⟩)
  · exact operands e member
  · exact (Nat.add_comm slack 1 ▸ parts part member).opened (Nat.le_refl 1) _

theorem Node.Spares.block {counts : Edge → Bool} {slack most : Nat} {statements : List Stmt}
    (least : slack ≤ most)
    (each : ∀ s ∈ statements, Spares counts (slack + 1) most (.stmt s)) :
    Spares counts slack most (.stmt (.block statements)) :=
  .stmt least nofun each

theorem Node.Spares.whileLoop {counts : Edge → Bool} {slack most : Nat} {condition : Expr}
    {body : Stmt} (least : slack ≤ most)
    (test : Spares counts (slack + (counts .clause).toNat) most (.expr condition))
    (round : Spares counts (slack + 1) most (.stmt body)) :
    Spares counts slack most (.stmt (.whileLoop condition body)) :=
  .stmt least (List.forall_mem_singleton.2 test) (List.forall_mem_singleton.2 round)

theorem Node.Spares.single {counts : Edge → Bool} {slack most : Nat} {e : Expr}
    (least : slack ≤ most) (h : Spares counts (slack + (counts .clause).toNat) most (.expr e)) :
    Spares counts slack most (.stmt (.expression e)) :=
  .stmt least (List.forall_mem_singleton.2 h) nofun

/-- Three edges to statements are the most that a `for` loop has on a way to its parts. -/
theorem Node.Spares.loopTree {counts : Edge → Bool} {most : Nat} {initial : Option Stmt}
    {condition : Expr} {increment : Option Expr} {body : Stmt} (three : 3 ≤ most)
    (first : ∀ s ∈ initial, Spares counts 3 most (.stmt s))
    (test : Spares counts (3 + (counts .clause).toNat) most (.expr condition))
    (last : ∀ e ∈ increment, Spares counts (3 + (counts .clause).toNat) most (.expr e))
    (round : Spares counts 3 most (.stmt body)) :
    Spares counts 0 most (.stmt (Grammar.loopTree initial condition increment body)) := by
  have rounds : ∀ slack ≤ 1,
      Spares counts slack most (.stmt (Grammar.loopTree none condition increment body)) := by
    intro slack few
    cases increment with
    | none => exact .whileLoop (by omega) (test.mono (by omega)) (round.mono (by omega))
    | some e =>
        refine .whileLoop (by omega) (test.mono (by omega)) (.block (by omega) ?_)
        refine List.forall_mem_cons.2 ⟨round.mono (by omega), List.forall_mem_singleton.2 ?_⟩
        exact .single (by omega) ((last e rfl).mono (by omega))
  cases initial with
  | none => exact rounds 0 (Nat.zero_le 1)
  | some s =>
      have inBlock : Grammar.loopTree (some s) condition increment body =
          .block [s, Grammar.loopTree none condition increment body] := by
        cases increment <;> rfl
      rw [inBlock]
      refine .block (Nat.zero_le _) (List.forall_mem_cons.2 ⟨?_, List.forall_mem_singleton.2 ?_⟩)
      · exact (first s rfl).mono (by omega)
      · exact rounds 1 (Nat.le_refl 1)

namespace Counting

variable (counting : Counting)

/-- The most that a statement takes of a level. -/
def perStatement : Nat := max 3 counting.perLevel

/-- The room that a statement has with so many levels to open. -/
def room (levels : Nat) : Nat :=
  counting.perStatement * levels + (counting.counts .clause).toNat

theorem room_succ (levels : Nat) :
    counting.room (levels + 1) = counting.room levels + counting.perStatement := by
  rw [room, room, Nat.mul_succ]
  omega

end Counting

namespace Node.Spares

/-- Any three edges fit in the level that is open around a node. -/
theorem inside {slack slack' : Nat} {child : Node}
    (h : child.Spares counting.counts slack (counting.room levels)) (few : slack' ≤ slack + 3) :
    child.Spares counting.counts slack' (counting.room (levels + 1)) := by
  have three : 3 ≤ counting.perStatement := Nat.le_max_left _ _
  exact h.mono (by rw [Counting.room_succ]; omega)

theorem literal (value : Literal) :
    Node.Spares counting.counts (counting.counts .clause).toNat (counting.room levels)
      (.expr (.literal value)) :=
  .intro (fun _ => Nat.le_add_left _ _) nofun

end Node.Spares

namespace Grammar

theorem Derives.spares_clause {e : Expr} (h : Derives levels .expression tokens e) :
    Node.Spares counting.counts (counting.counts .clause).toNat (counting.room levels)
      (.expr e) := by
  have opened : Node.Spares counting.counts (Counting.beforeValue e + counting.perLevel)
    (counting.perLevel * (levels + 1)) (.expr e) := h.spares
  have fewer : counting.perLevel * levels ≤ counting.perStatement * levels :=
    Nat.mul_le_mul_right levels (Nat.le_max_right _ _)
  refine opened.mono ?_
  rw [Counting.room, Nat.mul_succ]
  omega

theorem OptExpression.spares {value : Option Expr} (h : OptExpression levels tokens value) :
    ∀ e ∈ value, Node.Spares counting.counts (counting.counts .clause).toNat
      (counting.room levels) (.expr e) := by
  cases h with
  | absent => nofun
  | present derived =>
      rintro e ⟨⟩
      exact derived.spares_clause

theorem VarDecl.spares {s : Stmt} (h : VarDecl levels tokens s) :
    Node.Spares counting.counts 0 (counting.room levels) (.stmt s) := by
  refine .stmt (Nat.zero_le _) ?_ (by cases h <;> nofun)
  rw [Nat.zero_add]
  cases h with
  | plain => exact List.forall_mem_singleton.2 (.literal .nil)
  | initialized _ _ _ initial => exact List.forall_mem_singleton.2 initial.spares_clause

theorem ExprStmt.spares {s : Stmt} (h : ExprStmt levels tokens s) :
    Node.Spares counting.counts 0 (counting.room levels) (.stmt s) := by
  cases h with
  | intro value => exact .single (Nat.zero_le _) (value.spares_clause.mono (by omega))

theorem ForInitial.spares {initial : Option Stmt} (h : ForInitial levels tokens initial) :
    ∀ s ∈ initial, Node.Spares counting.counts 0 (counting.room levels) (.stmt s) := by
  cases h with
  | absent => nofun
  | var declared =>
      rintro s ⟨⟩
      exact declared.spares
  | expression simple =>
      rintro s ⟨⟩
      exact simple.spares

theorem DerivesStmt.spares {form : Form} {s : Stmt}
    (h : DerivesStmt levels inFunction form tokens s) :
    Node.Spares counting.counts 0 (counting.room levels) (.stmt s) := by
  have clause : ∀ {levels tokens e}, Derives levels .expression tokens e →
      Node.Spares counting.counts (0 + (counting.counts .clause).toNat)
        (counting.room (levels + 1)) (.expr e) := by
    intro levels tokens e derived
    exact derived.spares_clause.inside (by omega)
  induction h with
  | var declared => exact declared.spares
  | statement _ ih => exact ih
  | expression simple => exact simple.spares.inside (Nat.zero_le _)
  | print _ value => exact .stmt (Nat.zero_le _) (List.forall_mem_singleton.2 (clause value)) nofun
  | block _ _ _ ih =>
      refine .block (Nat.zero_le _) fun part member => ?_
      obtain ⟨d, among, rfl⟩ := List.mem_map.1 member
      exact (ih d among).inside (by omega)
  | ifThen _ _ condition _ _ ih =>
      refine .stmt (Nat.zero_le _) (List.forall_mem_singleton.2 (clause condition)) ?_
      exact List.forall_mem_singleton.2 (ih.inside (by omega))
  | ifElse _ _ condition _ _ _ _ ihThen ihElse =>
      refine .stmt (Nat.zero_le _) (List.forall_mem_singleton.2 (clause condition)) ?_
      exact List.forall_mem_cons.2
        ⟨ihThen.inside (by omega), List.forall_mem_singleton.2 (ihElse.inside (by omega))⟩
  | whileLoop _ _ condition _ _ ih =>
      exact .whileLoop (Nat.zero_le _) (clause condition) (ih.inside (by omega))
  | @forLoop levels _ _ _ _ _ _ _ _ _ _ _ condition _ _ _ _ first second _ third _ _ ih =>
      have three : 3 ≤ counting.room (levels + 1) := by
        have enough : 3 ≤ counting.perStatement := Nat.le_max_left _ _
        rw [counting.room_succ]
        omega
      have test : Node.Spares counting.counts (counting.counts .clause).toNat
          (counting.room levels) (.expr (condition.getD (.literal (.boolean true)))) := by
        cases condition with
        | none => exact .literal _
        | some e => exact second.spares e rfl
      refine .loopTree three ?_ (test.inside (by omega)) ?_ (ih.inside (by omega))
      · exact fun s here => (first.spares s here).inside (by omega)
      · exact fun e here => (third.spares e here).inside (by omega)
  | function _ _ _ _ _ _ _ _ _ _ ih =>
      refine .stmt (Nat.zero_le _) nofun fun part member => ?_
      obtain ⟨d, among, rfl⟩ := List.mem_map.1 member
      exact (ih d among).inside (by omega)
  | returns _ value _ =>
      refine .stmt (Nat.zero_le _) (fun e member => ?_) nofun
      exact (value.spares e (Option.mem_toList.1 member)).inside (by omega)

theorem DerivesWithin.spares {program : Program} (h : DerivesWithin levels tokens program) :
    ∀ s ∈ program, Node.Spares counting.counts 0 (counting.room levels) (.stmt s) := by
  cases h with
  | intro each =>
      intro s member
      obtain ⟨d, among, rfl⟩ := List.mem_map.1 member
      exact (each d among).spares

end Grammar

/-! ## Chains of assignments -/

namespace Chain

def name : Token := ⟨.identifier, "a", none, 1⟩

/-- `a = … = a;` with so many assignments. -/
def script : Nat → List Token
  | 0 => [name, ⟨.semicolon, ";", none, 1⟩]
  | n + 1 => name :: ⟨.equal, "=", none, 1⟩ :: script n

def tree : Nat → Expr
  | 0 => .identifier name
  | n + 1 => .assign name (tree n)

theorem readable_script : ∀ n, readable (script n) = script n
  | 0 => rfl
  | n + 1 => congrArg (fun rest => name :: ⟨.equal, "=", none, 1⟩ :: rest) (readable_script n)

/-- However long a chain is, it is read on one level. -/
theorem exists_derives (levels n : Nat) : ∃ tokens, Derives levels .assignment tokens (tree n) ∧
    script n = tokens ++ [⟨.semicolon, ";", none, 1⟩] := by
  induction n with
  | zero =>
      have primary : Derives levels .primary [name] (.identifier name) := .identifier rfl
      exact ⟨[name], .unassigned (.operand (.operand (.operand (.operand (.operand (.operand
        (.unprefixed (.uncalled primary)))))))), rfl⟩
  | succ n ih =>
      obtain ⟨tokens, derived, spelled⟩ := ih
      exact ⟨_, .assign rfl rfl derived, by rw [script, spelled]; rfl⟩

theorem parse_script (n : Nat) : Program.parse (script n) = .ok [.expression (tree n)] := by
  obtain ⟨tokens, derived, spelled⟩ := exists_derives 254 n
  have declared : DerivesStmt 256 false .declaration (script n) (.expression (tree n)) := by
    rw [spelled]
    exact .statement (.expression (.intro (.expression derived) rfl))
  have each : ∀ d ∈ [(script n, Stmt.expression (tree n))],
      DerivesStmt 256 false .declaration d.1 d.2 := List.forall_mem_singleton.2 declared
  have whole := DerivesWithin.intro each
  rw [List.flatMap_singleton] at whole
  rw [Program.parse_iff, Spells, readable_script]
  exact whole

theorem exists_path (n : Nat) :
    ∃ edges, Path (.expr (tree n)) edges ∧ edges.countP Edge.nests = n := by
  induction n with
  | zero => exact ⟨[], .leaf rfl, rfl⟩
  | succ n ih =>
      obtain ⟨edges, down, count⟩ := ih
      refine ⟨.toValue (tree n) :: edges, .step (List.mem_singleton.2 rfl) down, ?_⟩
      rw [List.countP_cons_of_pos, count]
      cases tree n <;> rfl

end Chain

/-! ## What the limit on nesting limits -/

namespace Counting

/-- The edges that nest and are not in a chain. -/
def nesting : Counting where
  counts edge := edge.nests && !edge.chains
  unchained edge chained := by rw [chained, Bool.not_true, Bool.and_false]

/-- All edges that are not in a chain. -/
def unchaining : Counting where
  counts edge := !edge.chains
  unchained edge chained := by rw [chained, Bool.not_true]

theorem countP_nesting (edges : List Edge) :
    edges.countP Edge.nests = edges.countP nesting.counts + edges.count .chained := by
  induction edges with
  | nil => rfl
  | cons edge edges ih =>
      rw [List.countP_cons, List.countP_cons, List.count_cons, ih]
      cases edge <;> simp [nesting, Edge.nests, Edge.chains] <;> omega

theorem countP_unchaining (edges : List Edge) :
    edges.length = edges.countP unchaining.counts + edges.countP Edge.chains := by
  rw [List.length_eq_countP_add_countP Edge.chains, Nat.add_comm]
  simp [unchaining]

end Counting

/-- A way down an accepted program nests at most three times for each level that can be
open, besides the assignments that are values of assignments, and has at most eight edges
for each, besides those in chains. -/
theorem Program.nesting_bounded {tokens : List Token} {program : Program}
    (accepted : parse tokens = .ok program) {s : Stmt} (member : s ∈ program) {edges : List Edge}
    (path : Path (.stmt s) edges) :
    edges.countP Edge.nests ≤ 3 * maxNesting + edges.count .chained ∧
      edges.length ≤ 8 * maxNesting + 1 + edges.countP Edge.chains := by
  have derived : DerivesWithin 256 (readable tokens) program :=
    (parse_iff tokens program).1 accepted
  have few : edges.countP Counting.nesting.counts ≤ Counting.nesting.room 256 :=
    derived.spares s member edges path
  have short : edges.countP Counting.unchaining.counts ≤ Counting.unchaining.room 256 :=
    derived.spares s member edges path
  rw [Counting.countP_nesting, Counting.countP_unchaining]
  exact ⟨Nat.add_le_add_right few _, Nat.add_le_add_right short _⟩

/-- A way through a round of a `for` loop into a chain of assignments,
`for (;; a = a = -a) a;`. -/
theorem Program.nesting_bounded_round :
    let plain : Token.Kind → Token := fun kind => ⟨kind, "", none, 1⟩
    let a : Token := ⟨.identifier, "a", none, 1⟩
    let tokens : List Token := [plain .kwFor, plain .leftParen, plain .semicolon,
      plain .semicolon, a, plain .equal, a, plain .equal, plain .minus, a, plain .rightParen, a,
      plain .semicolon]
    let chain : Expr := .assign a (.assign a (.unary (plain .minus) (.identifier a)))
    let loop : Stmt := .whileLoop (.literal (.boolean true))
      (.block [.expression (.identifier a), .expression chain])
    let edges : List Edge := [.statement, .statement, .clause, .chained, .value, .prefixed]
    parse tokens = .ok [loop] ∧ Path (.stmt loop) edges ∧
      edges.countP Edge.nests ≤ 3 * maxNesting + 1 := by
  intro plain a tokens chain loop edges
  have accepted : parse tokens = .ok [loop] := by decide +kernel
  have path : Path (.stmt loop) edges :=
    .step (.tail _ (.head _)) (.step (.tail _ (.head _)) (.step (.head _) (.step (.head _)
      (.step (.head _) (.step (.head _) (.leaf rfl))))))
  exact ⟨accepted, path, (nesting_bounded accepted (.head _) path).1⟩

/-- A chain of assignments is accepted that nests more often than four times for each
level that can be open, and so is one of any other length. -/
theorem Program.nesting_unbounded :
    parse (Chain.script 1025) = .ok [.expression (Chain.tree 1025)] ∧
      ∃ edges, Path (.stmt (.expression (Chain.tree 1025))) edges ∧
        4 * maxNesting < edges.countP Edge.nests := by
  obtain ⟨edges, down, count⟩ := Chain.exists_path 1025
  refine ⟨Chain.parse_script 1025, .clause :: edges, .step (.head _) down, ?_⟩
  rw [List.countP_cons_of_neg Bool.false_ne_true, count]
  decide

end Scriptlet
