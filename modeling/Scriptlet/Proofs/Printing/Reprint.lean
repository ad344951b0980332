/-
# What printing a parsed program keeps

A parsed program is always written as a text that can be scanned, but that text
need not be parsed as the program again.  It can differ from the text that the
program was parsed from in three ways.  A number literal may have been too long
for a double; it is infinite then, and infinity is written as the word `inf`.  A
`for` is written as the loop that it means, which may open more levels than it
did.  And a variable without an initial value is written with one, which opens a
level.  The program is read back exactly if all its numbers are finite and what
is written does not open too many levels.

That more is not needed is shown in the modules about parsing.  That nothing
less will do is shown by counting.  A written program has as many numerals as
its tree has finite numbers, so if it is parsed as the same tree, there are no
others in it.  And a text has an `=` or a `while` less than its tree is written
with for each variable without an initial value and for each `for`, so a written
program, if it is parsed as the same tree, is so without either of these; then
the levels that were opened are those of the tree.
-/
import Scriptlet.Proofs.Printing.Lines
import Scriptlet.Proofs.Printing.Parsed
import Scriptlet.Proofs.Printing.RoundTrip

namespace Scriptlet

open Grammar

/-! ## Counting tokens -/

namespace Token

/-- The kinds that a tree may be written with more often than it was read. -/
def Kind.mark : Kind → Nat
  | equal | kwWhile => 1
  | _ => 0

/-- The tokens `=` and `while` in a list. -/
def marks (tokens : List Token) : Nat := (tokens.map (·.kind.mark)).sum

@[simp] theorem marks_nil : marks [] = 0 := rfl

@[simp] theorem marks_cons (t : Token) (tokens : List Token) :
    marks (t :: tokens) = t.kind.mark + marks tokens := List.sum_cons

@[simp] theorem marks_append (tokens tokens' : List Token) :
    marks (tokens ++ tokens') = marks tokens + marks tokens' := by
  unfold marks
  rw [List.map_append, List.sum_append]

/-- One for a token that carries a number. -/
def numeral (t : Token) : Nat :=
  match t.literal with
  | some (.number _) => 1
  | _ => 0

theorem numeral_plain {kind : Kind} (h : kind ≠ .number) : numeral (plain kind) = 0 := by
  cases kind with
  | number => exact absurd rfl h
  | _ => rfl

/-- The tokens in a list that carry a number. -/
def numerals (tokens : List Token) : Nat := (tokens.map numeral).sum

@[simp] theorem numerals_nil : numerals [] = 0 := rfl

@[simp] theorem numerals_cons (t : Token) (tokens : List Token) :
    numerals (t :: tokens) = numeral t + numerals tokens := List.sum_cons

@[simp] theorem numerals_append (tokens tokens' : List Token) :
    numerals (tokens ++ tokens') = numerals tokens + numerals tokens' := by
  unfold numerals
  rw [List.map_append, List.sum_append]

theorem marks_alike {tokens tokens' : List Token} (h : Alike tokens' tokens) :
    marks tokens' = marks tokens := by
  have forget : ∀ ts : List Token, marks (ts.map unlined) = marks ts := by
    intro ts
    unfold marks
    rw [List.map_map]
    rfl
  rw [← forget, h, forget]

theorem numerals_alike {tokens tokens' : List Token} (h : Alike tokens' tokens) :
    numerals tokens' = numerals tokens := by
  have forget : ∀ ts : List Token, numerals (ts.map unlined) = numerals ts := by
    intro ts
    unfold numerals
    rw [List.map_map]
    rfl
  rw [← forget, h, forget]

theorem numerals_separated (parts : List (List Token)) :
    numerals (separated parts) = numerals parts.flatten := by
  induction parts with
  | nil => rfl
  | cons part parts ih =>
      cases parts with
      | nil => simp [separated]
      | cons next parts =>
          rw [separated, numerals_append, numerals_cons, ih, numeral_plain (by decide),
            Nat.zero_add, ← numerals_append]
          rfl

end Token

open Token (marks marks_append marks_cons numerals numerals_append numerals_cons Alike)

/-- The numbers in a list that are not finite. -/
def infinities (numbers : List Float) : Nat := numbers.countP (!·.isFinite)

@[simp] theorem infinities_nil : infinities [] = 0 := rfl

@[simp] theorem infinities_append (numbers numbers' : List Float) :
    infinities (numbers ++ numbers') = infinities numbers + infinities numbers' :=
  List.countP_append

theorem infinities_eq_zero {numbers : List Float} :
    infinities numbers = 0 ↔ ∀ x ∈ numbers, x.isFinite = true := by
  unfold infinities
  rw [List.countP_eq_zero]
  simp

/-- A number is written as a numeral or is not finite. -/
theorem numeral_token (x : Float) : (Literal.number x).token.numeral + infinities [x] = 1 := by
  by_cases finite : x.isFinite = true
  · rw [Literal.token_finite finite]
    simp [Token.numeral, infinities, finite]
  · rw [Literal.token_infinite finite]
    simp [Token.numeral, infinities, finite]

namespace Grammar

theorem Separated.marks_eq {parts : List (List Token)} {tokens : List Token}
    (h : Separated parts tokens) : marks tokens = marks parts.flatten := by
  induction h with
  | none => rfl
  | one part => simp
  | more comma _ ih =>
      rw [marks_append, marks_cons, comma, ih, List.flatten_cons, marks_append]
      simp [Token.Kind.mark]

theorem Separated.numerals_le {parts : List (List Token)} {tokens : List Token}
    (h : Separated parts tokens) : numerals parts.flatten ≤ numerals tokens := by
  induction h with
  | none => exact Nat.le_refl _
  | one part => simp
  | more _ _ ih =>
      rw [List.flatten_cons, numerals_append, numerals_append, numerals_cons]
      omega

section

variable {α : Type} {tokens : α → List Token} {parts : List (List Token × α)}

/-- If no part has more marks than it is written with, neither has the list, and
if the list has as many, so has every part. -/
theorem marks_parts (good : α → Prop)
    (h : ∀ part ∈ parts, marks part.1 ≤ marks (tokens part.2) ∧
      (marks part.1 = marks (tokens part.2) → good part.2)) :
    marks (parts.flatMap (·.1)) ≤ marks ((parts.map (·.2)).flatMap tokens) ∧
      (marks (parts.flatMap (·.1)) = marks ((parts.map (·.2)).flatMap tokens) →
        ∀ a ∈ parts.map (·.2), good a) := by
  induction parts with
  | nil => simp
  | cons part parts ih =>
      obtain ⟨⟨few, fine⟩, later⟩ := List.forall_mem_cons.1 h
      obtain ⟨fewRest, fineRest⟩ := ih later
      rw [List.flatMap_cons, List.map_cons, List.flatMap_cons, marks_append, marks_append,
        List.forall_mem_cons]
      refine ⟨Nat.add_le_add few fewRest, fun same => ⟨fine ?_, fineRest ?_⟩⟩
      · omega
      · omega

/-- The numerals of the parts cover those that they are written with and the
numbers that are not finite. -/
theorem numerals_parts {numbers : α → List Float}
    (h : ∀ part ∈ parts,
      numerals (tokens part.2) + infinities (numbers part.2) ≤ numerals part.1) :
    numerals ((parts.map (·.2)).flatMap tokens) + infinities ((parts.map (·.2)).flatMap numbers) ≤
      numerals (parts.flatMap (·.1)) := by
  induction parts with
  | nil => simp
  | cons part parts ih =>
      obtain ⟨here, later⟩ := List.forall_mem_cons.1 h
      have rest := ih later
      rw [List.map_cons, List.flatMap_cons, List.flatMap_cons, List.flatMap_cons,
        numerals_append, numerals_append, infinities_append]
      omega

end

/-! ## Expressions -/

variable {levels : Nat} {inFunction : Bool} {tokens : List Token}

/-- A derivation opens the levels of its tree. -/
theorem Derives.depth_le {symbol : Symbol} {e : Expr} (h : Derives levels symbol tokens e) :
    symbol.levels e ≤ levels := by
  induction h with
  | expression _ ih => exact Nat.succ_le_succ ih
  | assign _ _ _ ih | unassigned _ ih | unprefixed _ ih | uncalled _ ih => exact ih
  | operand _ ih => rwa [Rank.operand_levels] at ih
  | @infixed _ rank _ _ operator left right _ _ _ ihLeft ihRight =>
      rw [Rank.operand_levels] at ihRight
      show (rank.node left operator right).depth ≤ _
      rw [rank.node_depth]
      exact Nat.max_le.2 ⟨ihLeft, ihRight⟩
  | prefixed _ _ ih => exact Nat.succ_le_succ ih
  | call _ _ _ _ _ _ ih ihs =>
      refine Nat.max_le.2 ⟨ih, Expr.depthAll_le_iff.2 fun e listed => ?_⟩
      obtain ⟨argument, member, rfl⟩ := List.mem_map.1 listed
      exact ihs argument member
  | literal | identifier => exact Nat.zero_le _
  | grouping _ _ _ ih => exact ih

theorem Derives.marks_le {symbol : Symbol} {e : Expr} (h : Derives levels symbol tokens e) :
    marks tokens ≤ marks e.tokens := by
  induction h with
  | expression _ ih | unassigned _ ih | operand _ ih | unprefixed _ ih | uncalled _ ih => exact ih
  | assign _ equals _ ih =>
      simp only [Expr.tokens, marks_cons, equals, Token.plain_kind]
      omega
  | @infixed _ rank _ _ operator left right _ _ _ ihLeft ihRight =>
      simp only [rank.node_tokens, marks_append, marks_cons]
      omega
  | prefixed _ _ ih =>
      simp only [Expr.tokens, marks_cons]
      omega
  | @call _ _ inner _ _ callee arguments _ opens _ separated _ _ ih ihs =>
      have inside : marks inner ≤
          marks (Token.separated (Expr.tokensAll (arguments.map (·.2)))) := by
        rw [separated.marks_eq, (Separated.separated _).marks_eq, Expr.tokensAll_eq,
          ← List.flatMap_def, ← List.flatMap_def]
        exact (marks_parts (fun _ => True) fun argument member =>
          ⟨ihs argument member, fun _ => trivial⟩).1
      simp only [Expr.tokens, marks_append, marks_cons, opens, Token.plain_kind]
      omega
  | @literal _ token value member _ =>
      have unmarked : token.kind.mark = 0 := by
        generalize token.kind = kind at member
        revert kind
        decide
      simp only [Expr.tokens, marks_cons, unmarked]
      omega
  | identifier => exact Nat.le_refl _
  | grouping opens _ closes ih =>
      simp only [Expr.tokens, marks_append, marks_cons, opens, closes, Token.plain_kind,
        List.cons_append]
      omega

theorem Derives.numerals_le {symbol : Symbol} {e : Expr} (h : Derives levels symbol tokens e) :
    numerals e.tokens + infinities e.numbers ≤ numerals tokens := by
  induction h with
  | expression _ ih | unassigned _ ih | operand _ ih | unprefixed _ ih | uncalled _ ih => exact ih
  | assign _ _ _ ih =>
      simp (disch := decide) only [Expr.tokens, Expr.numbers, numerals_cons, Token.numeral_plain]
      omega
  | @infixed _ rank _ _ operator left right _ _ _ ihLeft ihRight =>
      simp only [rank.node_tokens, rank.node_numbers, numerals_append, numerals_cons,
        infinities_append]
      omega
  | prefixed _ _ ih =>
      simp only [Expr.tokens, Expr.numbers, numerals_cons]
      omega
  | @call _ _ inner _ _ callee arguments _ _ _ separated _ _ ih ihs =>
      have listed := separated.numerals_le
      rw [← List.flatMap_def] at listed
      have inside := Nat.le_trans (numerals_parts ihs) listed
      simp (disch := decide) only [Expr.tokens, Expr.numbers, numerals_append, numerals_cons,
        infinities_append, Token.numeral_plain, Token.numerals_separated, Expr.tokensAll_eq,
        Expr.numbersAll_eq, ← List.flatMap_def]
      omega
  | @literal _ token value _ carries =>
      cases value with
      | number x =>
          have one : token.numeral = 1 := by
            unfold Token.numeral
            rw [carries]
          show (Literal.number x).token.numeral + 0 + infinities [x] ≤ token.numeral + 0
          rw [one, ← numeral_token x]
          omega
      | boolean value => cases value <;> exact Nat.zero_le _
      | nil | string => exact Nat.zero_le _
  | identifier => exact Nat.le_refl _
  | grouping _ _ _ ih =>
      simp (disch := decide) only [Expr.tokens, Expr.numbers, numerals_append, numerals_cons,
        List.cons_append, Token.numeral_plain]
      omega

/-! ## Clauses -/

/-- The marks of a part that may be left out. -/
def optMarks {α : Type} (tokens : α → List Token) (part : Option α) : Nat :=
  marks ((part.map tokens).getD [])

/-- The numerals of a part that may be left out, and its numbers that are not
finite. -/
def optNumerals {α : Type} (tokens : α → List Token) (numbers : α → List Float)
    (part : Option α) : Nat :=
  numerals ((part.map tokens).getD []) + infinities ((part.map numbers).getD [])

theorem VarDecl.marks_le {s : Stmt} (h : VarDecl levels tokens s) :
    marks tokens ≤ marks s.tokens ∧ (marks tokens = marks s.tokens → s.depth ≤ levels) := by
  cases h with
  | plain opens name ends =>
      simp [Stmt.tokens, Expr.tokens, Literal.token, opens, name, ends, Token.Kind.mark]
  | initialized opens name equals derived ends =>
      have few := derived.marks_le
      simp only [Stmt.tokens, List.cons_append, marks_append, marks_cons, opens, name, equals, ends,
        Token.plain_kind]
      exact ⟨by omega, fun _ => derived.depth_le⟩

theorem VarDecl.numerals_le {s : Stmt} (h : VarDecl levels tokens s) :
    numerals s.tokens + infinities s.numbers ≤ numerals tokens := by
  cases h with
  | plain =>
      have none : (Expr.literal .nil).numbers = [] := rfl
      simp (disch := decide) only [Stmt.tokens, Stmt.numbers, Expr.tokens, Literal.token, none,
        List.cons_append, List.nil_append, numerals_cons, Token.numeral_plain, infinities_nil]
      omega
  | initialized _ _ _ derived =>
      have covered := derived.numerals_le
      simp (disch := decide) only [Stmt.tokens, Stmt.numbers, List.cons_append, numerals_append,
        numerals_cons, Token.numeral_plain, Token.numerals_nil]
      omega

theorem ExprStmt.marks_le {s : Stmt} (h : ExprStmt levels tokens s) :
    marks tokens ≤ marks s.tokens ∧ s.depth ≤ levels + 1 := by
  cases h with
  | intro derived ends =>
      have few := derived.marks_le
      simp only [Stmt.tokens, marks_append, marks_cons, ends, Token.plain_kind]
      exact ⟨by omega, Nat.succ_le_succ derived.depth_le⟩

theorem ExprStmt.numerals_le {s : Stmt} (h : ExprStmt levels tokens s) :
    numerals s.tokens + infinities s.numbers ≤ numerals tokens := by
  cases h with
  | intro derived ends =>
      have covered := derived.numerals_le
      simp (disch := decide) only [Stmt.tokens, Stmt.numbers, numerals_append, numerals_cons,
        Token.numeral_plain]
      omega

theorem ForInitial.marks_le {initial : Option Stmt} (h : ForInitial levels tokens initial) :
    marks tokens ≤ optMarks Stmt.tokens initial := by
  cases h with
  | absent ends => simp [ends, Token.Kind.mark]
  | var declared => exact declared.marks_le.1
  | expression derived => exact derived.marks_le.1

theorem ForInitial.numerals_le {initial : Option Stmt} (h : ForInitial levels tokens initial) :
    optNumerals Stmt.tokens Stmt.numbers initial ≤ numerals tokens := by
  cases h with
  | absent => exact Nat.zero_le _
  | var declared => exact declared.numerals_le
  | expression derived => exact derived.numerals_le

theorem OptExpression.marks_le {value : Option Expr} (h : OptExpression levels tokens value) :
    marks tokens ≤ optMarks Expr.tokens value := by
  cases h with
  | absent => exact Nat.le_refl _
  | present derived => exact derived.marks_le

theorem OptExpression.numerals_le {value : Option Expr} (h : OptExpression levels tokens value) :
    optNumerals Expr.tokens Expr.numbers value ≤ numerals tokens := by
  cases h with
  | absent => exact Nat.zero_le _
  | present derived => exact derived.numerals_le

/-- A loop that was read of a `for` is written with a `while`. -/
theorem loopTree_marks (initial : Option Stmt) (condition : Expr) (increment : Option Expr)
    (body : Stmt) : marks (loopTree initial condition increment body).tokens =
      optMarks Stmt.tokens initial + marks condition.tokens +
        optMarks Expr.tokens increment + marks body.tokens + 1 := by
  cases initial <;> cases increment <;>
    simp [loopTree, optMarks, Stmt.tokens, Stmt.tokensAll, Token.Kind.mark] <;> omega

theorem loopTree_numerals (initial : Option Stmt) (condition : Expr) (increment : Option Expr)
    (body : Stmt) :
    numerals (loopTree initial condition increment body).tokens +
        infinities (loopTree initial condition increment body).numbers =
      optNumerals Stmt.tokens Stmt.numbers initial +
        (numerals condition.tokens + infinities condition.numbers) +
        optNumerals Expr.tokens Expr.numbers increment +
        (numerals body.tokens + infinities body.numbers) := by
  cases initial <;> cases increment <;>
    simp [loopTree, optNumerals, Stmt.tokens, Stmt.tokensAll, Stmt.numbers, Stmt.numbersAll,
      Token.numeral_plain] <;> omega

/-! ## Statements -/

/-- A text has no more marks than its tree is written with, and if it has as
many, it opens the levels of its tree. -/
theorem DerivesStmt.marks_le {form : Form} {s : Stmt}
    (h : DerivesStmt levels inFunction form tokens s) :
    marks tokens ≤ marks s.tokens ∧ (marks tokens = marks s.tokens → s.depth ≤ levels) := by
  induction h with
  | var declared => exact declared.marks_le
  | statement _ ih => exact ih
  | expression derived => exact ⟨derived.marks_le.1, fun _ => derived.marks_le.2⟩
  | print keyword derived ends =>
      have few := derived.marks_le
      simp only [Stmt.tokens, List.cons_append, marks_append, marks_cons, keyword, ends,
        Token.plain_kind]
      exact ⟨by omega, fun _ => Nat.succ_le_succ derived.depth_le⟩
  | @block levels _ _ _ _ opens _ closes ihs =>
      obtain ⟨few, fine⟩ := marks_parts (fun s : Stmt => s.depth ≤ levels) ihs
      simp only [Stmt.tokens, Stmt.tokensAll_eq, List.cons_append, marks_append, marks_cons, opens,
        closes, Token.plain_kind]
      refine ⟨by omega, fun same => Nat.succ_le_succ (Stmt.depthAll_le_iff.2 (fine ?_))⟩
      omega
  | ifThen keyword opens condition closes _ ih =>
      obtain ⟨few, fine⟩ := ih
      have few' := condition.marks_le
      simp only [Stmt.tokens, List.cons_append, marks_append, marks_cons, keyword, opens, closes,
        Token.plain_kind]
      refine ⟨by omega, fun same => Nat.succ_le_succ (Nat.max_le.2 ⟨condition.depth_le, fine ?_⟩)⟩
      omega
  | ifElse keyword opens condition closes _ elseToken _ ihThen ihElse =>
      obtain ⟨fewThen, fineThen⟩ := ihThen
      obtain ⟨fewElse, fineElse⟩ := ihElse
      have few := condition.marks_le
      simp only [Stmt.tokens, List.cons_append, marks_append, marks_cons, keyword, opens, closes,
        elseToken, Token.plain_kind]
      refine ⟨by omega, fun same => Nat.succ_le_succ (Nat.max_le.2
        ⟨condition.depth_le, Nat.max_le.2 ⟨fineThen ?_, fineElse ?_⟩⟩)⟩
      · omega
      · omega
  | whileLoop keyword opens condition closes _ ih =>
      obtain ⟨few, fine⟩ := ih
      have few' := condition.marks_le
      simp only [Stmt.tokens, List.cons_append, marks_append, marks_cons, keyword, opens, closes,
        Token.plain_kind]
      refine ⟨by omega, fun same => Nat.succ_le_succ (Nat.max_le.2 ⟨condition.depth_le, fine ?_⟩)⟩
      omega
  | @forLoop _ _ _ _ _ _ _ _ second _ _ _ condition _ _ keyword opens initial hcondition ends
      increment closes _ ih =>
      have few : marks second ≤ marks (condition.getD (.literal (.boolean true))).tokens := by
        cases hcondition with
        | absent => exact Nat.zero_le _
        | present derived => exact derived.marks_le
      have fewFirst := initial.marks_le
      have fewThird := increment.marks_le
      have fewBody := ih.1
      have fewer : Token.Kind.kwFor.mark + Token.Kind.leftParen.mark + Token.Kind.semicolon.mark +
        Token.Kind.rightParen.mark = 0 := rfl
      simp only [loopTree_marks, List.cons_append, marks_append, marks_cons, keyword, opens, ends,
        closes]
      exact ⟨by omega, fun same => absurd same (by omega)⟩
  | @function levels _ _ _ _ _ _ _ _ _ _ keyword name opens _ separated _ closes bodyOpens _
      bodyCloses ihs =>
      obtain ⟨few, fine⟩ := marks_parts (fun s : Stmt => s.depth ≤ levels) ihs
      simp only [Stmt.tokens, Stmt.tokensAll_eq, List.cons_append, marks_append, marks_cons,
        keyword, name, opens, closes, bodyOpens, bodyCloses, separated.marks_eq,
        (Separated.separated _).marks_eq, Token.plain_kind]
      refine ⟨by omega, fun same => Nat.succ_le_succ (Stmt.depthAll_le_iff.2 (fine ?_))⟩
      omega
  | @returns levels keyword semicolon tokens value hkeyword hvalue ends =>
      cases hvalue with
      | absent =>
          simp only [Stmt.tokens, List.cons_append, List.nil_append, marks_cons, ends,
            Token.plain_kind]
          exact ⟨Nat.le_refl _, fun _ => Nat.succ_le_succ (Nat.zero_le _)⟩
      | present derived =>
          have few := derived.marks_le
          simp only [Stmt.tokens, List.cons_append, marks_append, marks_cons, ends,
            Token.plain_kind]
          exact ⟨by omega, fun _ => Nat.succ_le_succ derived.depth_le⟩

/-- A text has a numeral for each one that its tree is written with, and for each
number that is not finite. -/
theorem DerivesStmt.numerals_le {form : Form} {s : Stmt}
    (h : DerivesStmt levels inFunction form tokens s) :
    numerals s.tokens + infinities s.numbers ≤ numerals tokens := by
  induction h with
  | var declared => exact declared.numerals_le
  | statement _ ih => exact ih
  | expression derived => exact derived.numerals_le
  | print _ derived =>
      have covered := derived.numerals_le
      simp (disch := decide) only [Stmt.tokens, Stmt.numbers, List.cons_append, numerals_append,
        numerals_cons, Token.numeral_plain]
      omega
  | block _ _ _ ihs =>
      have covered := numerals_parts ihs
      simp (disch := decide) only [Stmt.tokens, Stmt.numbers, Stmt.tokensAll_eq,
        Stmt.numbersAll_eq, List.cons_append, numerals_append, numerals_cons, Token.numeral_plain]
      omega
  | ifThen _ _ condition _ _ ih | whileLoop _ _ condition _ _ ih =>
      have covered := condition.numerals_le
      simp (disch := decide) only [Stmt.tokens, Stmt.numbers, List.cons_append, numerals_append,
        numerals_cons, infinities_append, Token.numeral_plain]
      omega
  | ifElse _ _ condition _ _ _ _ ihThen ihElse =>
      have covered := condition.numerals_le
      simp (disch := decide) only [Stmt.tokens, Stmt.numbers, List.cons_append, numerals_append,
        numerals_cons, infinities_append, Token.numeral_plain]
      omega
  | @forLoop _ _ _ _ _ _ _ _ second _ _ _ condition _ _ _ _ initial hcondition _ increment _ _
      ih =>
      have covered : numerals (condition.getD (.literal (.boolean true))).tokens +
          infinities (condition.getD (.literal (.boolean true))).numbers ≤ numerals second := by
        cases hcondition with
        | absent => exact Nat.zero_le _
        | present derived => exact derived.numerals_le
      have first := initial.numerals_le
      have third := increment.numerals_le
      rw [loopTree_numerals]
      simp only [List.cons_append, numerals_append, numerals_cons]
      omega
  | function _ _ _ _ separated _ _ _ _ _ ihs =>
      have covered := numerals_parts ihs
      have names := separated.numerals_le
      simp (disch := decide) only [Stmt.tokens, Stmt.numbers, Stmt.tokensAll_eq,
        Stmt.numbersAll_eq, List.cons_append, numerals_append, numerals_cons, Token.numeral_plain,
        Token.numerals_separated]
      omega
  | returns _ hvalue =>
      cases hvalue with
      | absent =>
          simp (disch := decide) only [Stmt.tokens, Stmt.numbers, List.cons_append, numerals_cons,
            List.nil_append, infinities_nil, Token.numeral_plain]
          omega
      | present derived =>
          have covered := derived.numerals_le
          simp (disch := decide) only [Stmt.tokens, Stmt.numbers, List.cons_append,
            numerals_append, numerals_cons, Token.numeral_plain]
          omega

/-! ## Programs -/

theorem DerivesWithin.depth_le {program : Program} (h : DerivesWithin levels tokens program)
    (same : marks tokens = marks program.tokens) : program.depth ≤ levels := by
  cases h with
  | intro each =>
      obtain ⟨-, fine⟩ := marks_parts (fun s : Stmt => s.depth ≤ levels)
        fun d member => (each d member).marks_le
      exact Stmt.depthAll_le_iff.2 (fine same)

theorem DerivesWithin.finite {program : Program} (h : DerivesWithin levels tokens program)
    (same : numerals tokens = numerals program.tokens) : ∀ x ∈ program.numbers, x.isFinite := by
  cases h with
  | @intro declarations each =>
      have covers : ∀ d ∈ declarations,
          numerals d.2.tokens + infinities d.2.numbers ≤ numerals d.1 :=
        fun d member => (each d member).numerals_le
      have covered := numerals_parts covers
      rw [same] at covered
      refine infinities_eq_zero.1 (Nat.le_zero.1 ?_)
      exact Nat.le_of_add_le_add_left (show _ + _ ≤ _ + 0 from covered)

end Grammar

/-- The written form of a parsed program is scanned and parsed as the program
again, and written again as the same text, exactly if its numbers are finite and
what is written opens no more levels than may be open. -/
theorem Program.reprint_iff {source : String} {tokens : List Token} {program : Program}
    (scans : Token.scan source = .ok tokens) (parses : parse tokens = .ok program) :
    (∃ tokens' program', Token.scan program.written = .ok tokens' ∧
        parse tokens' = .ok program' ∧ program'.unlined = program.unlined ∧
        program'.written = program.written) ↔
      (∀ x ∈ program.numbers, x.isFinite = true) ∧ program.depth ≤ maxNesting := by
  have spells := (parse_iff tokens program).1 parses
  have genuine : ∀ t ∈ readable tokens, t.Genuine := fun t member =>
    ⟨source, tokens, scans, t, (List.takeWhile_sublist _).mem member, rfl⟩
  have writable : program.Writable := spells.writable genuine
  constructor
  · intro ⟨tokens', program', scans', parses', same, _⟩
    have spells' := (parse_iff tokens' program').1 parses'
    obtain ⟨scanned, scans'', alike⟩ := writable.scan_readable
    rw [scans'] at scans''
    cases scans''
    have alike' : Alike (readable tokens') program'.tokens := alike.trans (tokens_alike same).symm
    rw [← numbers_eq same, ← depth_eq same]
    have finite := spells'.finite (Token.numerals_alike alike')
    exact ⟨finite, spells'.depth_le (Token.marks_alike alike')⟩
  · intro ⟨finite, shallow⟩
    obtain ⟨tokens', program', scans', spells', same⟩ :=
      writable.spelled spells.fits finite shallow
    exact ⟨tokens', program', scans', (parse_iff tokens' program').2 spells', same,
      written_eq same⟩

/-- A `for` around a variable without an initial value, which is written as a
`while` around one that is set to `nil`. -/
theorem Program.reprint_of_for :
    let plain : Token.Kind → Token := fun kind => { Token.plain kind with line := 1 }
    let name : Token := ⟨.identifier, "a", none, 1⟩
    let tokens : List Token := [plain .kwFor, plain .leftParen, plain .semicolon, plain .semicolon,
      name, plain .rightParen, plain .leftBrace, plain .kwVar, name, plain .semicolon,
      plain .rightBrace, Token.endOfFile 1]
    let program : Program := [.whileLoop (.literal (.boolean true))
      (.block [.block [.var name (.literal .nil)], .expression (.identifier name)])]
    Token.scan "for (;; a) \x7b var a; \x7d" = .ok tokens ∧ parse tokens = .ok program ∧
      ∃ tokens' program', Token.scan program.written = .ok tokens' ∧
        parse tokens' = .ok program' ∧ program'.unlined = program.unlined ∧
        program'.written = program.written := by
  intro plain name tokens program
  have scans : Token.scan "for (;; a) \x7b var a; \x7d" = .ok tokens := rfl
  have parses : parse tokens = .ok program := rfl
  have finite : ∀ x ∈ program.numbers, x.isFinite = true := by
    intro x none
    cases none
  have shallow : program.depth ≤ maxNesting := by decide
  exact ⟨scans, parses, (reprint_iff scans parses).2 ⟨finite, shallow⟩⟩

/-! ## A number literal that is too long -/

namespace Overlong

/-- Nines to more than the largest double. -/
def digits : List Char := List.replicate 310 '9'

def source : String := "print " ++ String.ofList digits ++ ";"

def literal : Literal := .number (Decimal.ofChars digits).toFloat

def program : Program := [.print (.literal literal)]

def tokens : List Token :=
  [{ Token.plain .kwPrint with line := 1 }, ⟨.number, String.ofList digits, some literal, 1⟩,
    { Token.plain .semicolon with line := 1 }, Token.endOfFile 1]

/-- What the literal is written as is the name of a variable. -/
def name : Token := ⟨.identifier, "inf", none, 1⟩

def reprinted : List Token :=
  [{ Token.plain .kwPrint with line := 1 }, name, { Token.plain .semicolon with line := 1 },
    Token.endOfFile 2]

theorem toNat_toBits : (Decimal.ofChars digits).toFloat.toBits.toNat = infinityBits := by
  have bits : (Decimal.ofChars digits).bits = infinityBits := by decide +kernel
  unfold Decimal.toFloat
  rw [toNat_toBits_ofBits (Nat.le_of_eq bits), bits]

theorem written_literal : literal.written = "inf" := by
  have shown : ∀ x, (Literal.number x).written = numberText x := fun _ => rfl
  rw [literal, shown, numberText_infinite toNat_toBits]

theorem written_program : program.written = "print inf;\n" := by
  simp [program, Program.written, Stmt.written, Expr.written, String.join, written_literal]

end Overlong

-- The scanner is run over all the digits.
set_option maxRecDepth 2000 in
/-- The program is accepted, and what it is written as prints a variable instead. -/
theorem Program.infinity_read_as_name :
    Token.scan Overlong.source = .ok Overlong.tokens ∧
      parse Overlong.tokens = .ok Overlong.program ∧
      ∃ tokens' program', Token.scan Overlong.program.written = .ok tokens' ∧
        parse tokens' = .ok program' ∧ program' = [.print (.identifier Overlong.name)] ∧
        program'.unlined ≠ Overlong.program.unlined := by
  have scans : Token.scan Overlong.source = .ok Overlong.tokens := rfl
  have parses : parse Overlong.tokens = .ok Overlong.program := rfl
  have scans' : Token.scan Overlong.program.written = .ok Overlong.reprinted := by
    rw [Overlong.written_program]
    rfl
  have parses' : parse Overlong.reprinted = .ok [.print (.identifier Overlong.name)] := rfl
  refine ⟨scans, parses, _, _, scans', parses', rfl, ?_⟩
  intro same
  injection same with first
  injection first with value
  cases value

end Scriptlet
