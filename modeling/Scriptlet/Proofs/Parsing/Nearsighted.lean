/-
# Rules see one token ahead

Every rule of the grammar is nearsighted, so what a run comes to depends on no more
than the tokens that it reads and the one after them.  Rules for expressions read no
semicolon, while statements read whatever comes.  All of them read a token if they
succeed.

What a difference between two runs is nothing to then follows from one relation
between their cursors, without going through the grammar again.
-/
import Scriptlet.Proofs.Parsing.Lockstep

namespace Scriptlet

namespace Parse

variable {α β : Type}

namespace Nearsighted

section

variable {reads : Token.Kind → Prop}

theorem separated (comma : reads .comma) {item : Parse α} (h : Nearsighted reads true item)
    (tooMany : SyntaxError.Cause) : Nearsighted reads true (separated item tooMany) := by
  have more : ∀ items : List α, Nearsighted reads false
      (do Pure.pure (items ++ [← item]) : Parse (List α)) :=
    fun items => h.andThen fun _ => pure _
  refine h.before fun first => chain (List.forall_mem_singleton.2 comma) (fun items _ => ?_) _
  dsimp only
  split
  · exact current fun token => ((record tooMany token).andThen fun _ => more items).onto token
  · exact more items

theorem listed (comma : reads .comma) {item : Parse α} (h : Nearsighted reads true item)
    (tooMany : SyntaxError.Cause) : Nearsighted reads false (listed item tooMany) := by
  refine (check .rightParen).andThen fun closed => ?_
  split
  · exact pure []
  · exact (separated comma h tooMany).weaken

end

/-! ## Expressions -/

section

variable {reads : Token.Kind → Prop} (known : ∀ kind, kind ≠ .semicolon → reads kind)
  {expression operand : Parse Expr}

include known

theorem primary (h : Nearsighted reads true expression) :
    Nearsighted reads true (primary expression) := by
  refine current fun token => ?_
  split
  case h_6 hk => exact next hk (known _ (by decide)) (by decide) fun _ => pure _
  case h_7 hk =>
    exact next hk (known _ (by decide)) (by decide) fun _ => h.before fun inner =>
      (expect (known _ (by decide)) _).andThen fun _ => pure (Expr.grouping inner)
  case h_8 => exact (fail _).onto token
  all_goals
    rename_i hk
    split
    · exact next hk (known _ (by decide)) (by decide) fun _ => pure _
    · exact (fail _).onto token

theorem call (h : Nearsighted reads true expression) :
    Nearsighted reads true (call expression) :=
  (primary known h).before fun callee =>
    chain (List.forall_mem_singleton.2 (known _ (by decide))) (fun callee _ =>
      (listed (known _ (by decide)) h _).andThen fun arguments =>
        (expect (known _ (by decide)) _).andThen fun paren =>
          pure (Expr.call callee paren arguments)) callee

theorem prefixed (h : Nearsighted reads true operand) (h' : Nearsighted reads true expression) :
    Nearsighted reads true (prefixed operand expression) :=
  accept? (by simp [known]) (fun operator => h.andThen fun inner =>
    pure (Expr.unary operator inner)) (call known h')

theorem infixed (h : Nearsighted reads true operand) {levels : List Level}
    (operators : ∀ level ∈ levels, Token.Kind.semicolon ∉ level.operators) :
    Nearsighted reads true (infixed operand levels) := by
  induction levels with
  | nil => exact h
  | cons level tighter ih =>
      obtain ⟨here, operators⟩ := List.forall_mem_cons.1 operators
      have wanted : ∀ kind ∈ level.operators, reads kind := by
        intro kind hk
        refine known kind ?_
        rintro rfl
        exact here hk
      exact (ih operators).before fun first => chain wanted (fun left operator =>
        (ih operators).andThen fun right => pure (level.node left operator right)) first

omit known in
/-- What an assignment comes to once its value is read. -/
theorem assigned (target value : Expr) (equals : Token) : Nearsighted reads false
    (match target with
      | .identifier name => Pure.pure (.assign name value)
      | _ => do
        Parse.record .invalidAssignmentTarget equals
        Pure.pure target : Parse Expr) := by
  split
  · exact pure _
  · exact (record _ equals).andThen fun _ => pure target

omit known in
theorem assignmentWithin_error {c d : Cursor} {e : SyntaxError}
    (h : Parse.infixed operand infixLevels c = .error e d) (rounds : Nat) :
    Parse.assignmentWithin operand rounds c = .error e d := by
  cases rounds with
  | zero => exact h
  | succ rounds => rw [Parse.assignmentWithin, bind_apply, h]

/-- Assignments come to the same however many may follow. -/
theorem assignmentWithin (h : Nearsighted reads true operand) :
    Roundwise reads true fun rounds (_ : Unit) => Parse.assignmentWithin operand rounds := by
  have side : Nearsighted reads true (Parse.infixed operand infixLevels) :=
    infixed known h (by decide)
  refine .intro (fun R hR _ c c' related hrest _ rounds rounds' => ?_)
    fun rounds rounds' R hR ih _ c c' token tail tail' related hrest hrest' few few' => ?_
  · have both := side R hR c c' related
    cases run : Parse.infixed operand infixLevels c with
    | ok target d =>
        rw [run] at both
        obtain ⟨d', -, -, past, -⟩ := both.of_ok
        unfold Cursor.Past at past
        rw [hrest] at past
        exact absurd past (Nat.not_succ_le_zero _)
    | error e d =>
        rw [run] at both
        obtain ⟨d', run', there⟩ := both.of_error
        rw [assignmentWithin_error run, assignmentWithin_error run']
        exact ⟨rfl, there⟩
  · refine (side R hR c c' related).bind fun target d d' ⟨there, past, past'⟩ => ?_
    refine .accept? hR there (List.forall_mem_singleton.2 (known _ (by decide)))
      (fun equals left left' hd hd' _ there => ?_) ⟨rfl, there, past, past'⟩
    have fewer := past.length_le hrest
    have fewer' := past'.length_le hrest'
    rw [hd, List.length_cons] at fewer
    rw [hd', List.length_cons] at fewer'
    refine (ih () _ _ there (Nat.le_of_succ_le (Nat.le_trans fewer few))
      (Nat.le_of_succ_le (Nat.le_trans fewer' few'))).bind
      fun value e e' ⟨there, past₂, past₂'⟩ => ?_
    refine (assigned target value equals R hR e e' there).mono (fun _ _ later => ?_)
      fun _ _ => id
    exact ⟨later.1, past.trans ((Cursor.past_facing hd).trans (past₂.trans later.2.1)),
      past'.trans ((Cursor.past_facing hd').trans (past₂'.trans later.2.2))⟩

theorem assignment (h : Nearsighted reads true operand) :
    Nearsighted reads true (assignment operand) :=
  (assignmentWithin known h).nearsighted ()

end

section

variable {reads : Token.Kind → Prop} (known : ∀ kind, kind ≠ .semicolon → reads kind)

include known

theorem operand : ∀ levels, Nearsighted reads true (Parse.operand levels)
  | 0 => prefixed known (fail _) (fail _)
  | levels + 1 => prefixed known (operand levels) (assignment known (operand levels))

/-- Rules for expressions see one token ahead, and read no semicolon. -/
theorem expression : ∀ levels, Nearsighted reads true (Parse.expression levels)
  | 0 => fail _
  | levels + 1 => assignment known (operand known levels)

end

/-! ## Statements -/

section

variable {reads : Token.Kind → Prop} (all : ∀ kind, reads kind)
  {expression : Parse Expr} {statement : Parse Stmt}

include all

/-- A rule for one more token and what is made then. -/
theorem closed (kind : Token.Kind) (cause : SyntaxError.Cause) (a : α) :
    Nearsighted reads true (do let _ ← Parse.expect kind cause; Pure.pure a) :=
  (expect (all kind) cause).before fun _ => pure a

theorem varDeclaration (h : Nearsighted reads true expression) :
    Nearsighted reads true (varDeclaration expression) :=
  (expect (all _) _).before fun _ => accept? (fun _ _ => all _)
    (fun _ => h.andThen fun _ => (closed all _ _ _).weaken)
    ((pure _).andThen fun _ => (closed all _ _ _).weaken)

theorem declaration (h : Nearsighted reads true expression)
    (h' : Nearsighted reads true statement) :
    Nearsighted reads true (declaration expression statement) :=
  accept? (fun _ _ => all _) (fun _ => varDeclaration all h) h'

theorem block (h : Nearsighted reads true statement) : Nearsighted reads true (block statement) :=
  (many _ all h).andThen fun statements => closed all _ _ statements

theorem printStatement (h : Nearsighted reads true expression) :
    Nearsighted reads true (printStatement expression) :=
  h.before fun _ => (closed all _ _ _).weaken

theorem expressionStatement (h : Nearsighted reads true expression) :
    Nearsighted reads true (expressionStatement expression) :=
  h.before fun _ => (closed all _ _ _).weaken

theorem ifStatement (h : Nearsighted reads true expression)
    (h' : Nearsighted reads true statement) :
    Nearsighted reads true (ifStatement expression statement) :=
  (expect (all _) _).before fun _ => h.andThen fun condition => (expect (all _) _).andThen fun _ =>
    h'.andThen fun thenBranch => accept? (fun _ _ => all _)
      (fun _ => h'.andThen fun elseBranch => pure (Stmt.ifElse condition thenBranch elseBranch))
      (pure (Stmt.ifThen condition thenBranch))

theorem whileStatement (h : Nearsighted reads true expression)
    (h' : Nearsighted reads true statement) :
    Nearsighted reads true (whileStatement expression statement) :=
  (expect (all _) _).before fun _ => h.andThen fun condition => (expect (all _) _).andThen fun _ =>
    h'.andThen fun body => pure (Stmt.whileLoop condition body)

omit all in
/-- What may be left out when the given kind comes next, and the rule after it. -/
theorem optional {advances advances' : Bool} (kind : Token.Kind) (absent : α) {rule : Parse α}
    (h : Nearsighted reads advances' rule) {next : α → Parse β}
    (h' : ∀ a, Nearsighted reads advances (next a)) : Nearsighted reads advances
      (do if ← Parse.check kind then Pure.pure absent >>= next else rule >>= next) := by
  refine (check kind).andThen fun closed => ?_
  split
  · exact (pure absent).andThen h'
  · exact h.andThen h'

theorem forInitial (h : Nearsighted reads true expression) :
    Nearsighted reads true (forInitial expression) := by
  refine accept? (fun _ _ => all _) (fun token => (?_ : Nearsighted reads false _))
    ((expressionStatement all h).map some)
  dsimp only
  split
  · exact pure none
  · exact ((varDeclaration all h).map some).weaken

theorem forStatement (h : Nearsighted reads true expression)
    (h' : Nearsighted reads true statement) :
    Nearsighted reads true (forStatement expression statement) :=
  (expect (all _) _).before fun _ => (forInitial all h).andThen fun initial =>
    optional _ _ h fun condition => (expect (all _) _).andThen fun _ =>
      optional _ _ (h.map some) fun increment => (expect (all _) _).andThen fun _ =>
        h'.andThen fun body => pure (forLoop initial condition increment body)

theorem functionStatement (h : Nearsighted reads true statement) :
    Nearsighted reads true (functionStatement statement) :=
  (expect (all _) _).before fun name => (expect (all _) _).andThen fun _ =>
    (listed (all _) (expect (all _) _) _).andThen fun params => (expect (all _) _).andThen fun _ =>
      (expect (all _) _).andThen fun _ => (block all h).andThen fun body =>
        pure (Stmt.function name params body)

theorem returnStatement (h : Nearsighted reads true expression) (functions : Nat)
    (keyword : Token) : Nearsighted reads true (returnStatement expression functions keyword) := by
  have rest : Nearsighted reads true (do
      let value ← if ← Parse.check .semicolon then Pure.pure none else some <$> expression
      let _ ← Parse.expect .semicolon .semicolonAfterReturnMissing
      Pure.pure (.returns keyword value) : Parse Stmt) :=
    optional _ _ (h.map some) fun value => closed all _ _ (Stmt.returns keyword value)
  unfold Parse.returnStatement
  split
  · exact (record _ keyword).andThen fun _ => rest
  · exact rest

end

section

variable {reads : Token.Kind → Prop} (all : ∀ kind, reads kind)

include all

theorem statementBody {expression : Parse Expr} {statement : Nat → Parse Stmt}
    (h : Nearsighted reads true expression)
    (h' : ∀ functions, Nearsighted reads true (statement functions)) (functions : Nat) :
    Nearsighted reads true (statementBody expression statement functions) := by
  refine accept? (fun _ _ => all _) (fun token => (?_ : Nearsighted reads true _))
    (expressionStatement all h)
  dsimp only
  split
  case h_1 => exact printStatement all h
  case h_2 => exact (block all (declaration all h (h' functions))).map Stmt.block
  case h_3 => exact ifStatement all h (h' functions)
  case h_4 => exact whileStatement all h (h' functions)
  case h_5 => exact forStatement all h (h' functions)
  case h_6 => exact functionStatement all (declaration all h (h' (functions + 1)))
  case h_7 => exact returnStatement all h functions token
  case h_8 => exact failAt _ token

theorem statement : ∀ levels functions, Nearsighted reads true (Parse.statement levels functions)
  | 0, _ => fail _
  | levels + 1, functions =>
      statementBody all (expression (fun _ _ => all _) levels) (statement levels) functions

end

end Nearsighted

end Parse

end Scriptlet
