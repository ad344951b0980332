/-
# Parsing looks at no lines

A parser whose tokens are moved to other lines comes to the same end: the same
tree, the same errors in the same order, the same place to go on from, all of
them with their lines moved.  Nothing is assumed of how the lines are moved, so
no rule compares lines or takes one from anywhere but a token or the end.

There is one lemma for each step and each rule of the grammar, and a rule that
loops or recovers is moved by induction on its rounds.  Unlike the grammar of
what is accepted (`Grammar.DerivesWithin.relined`), this covers the texts that
are rejected, with all that is reported of them (`Program.parse_relined`).
-/
import Scriptlet.Proofs.Parsing.Reads
import Scriptlet.Proofs.Tree.Relined

namespace Scriptlet

/-- The error on the line that `φ` gives for its own. -/
def SyntaxError.relined (φ : Nat → Nat) (e : SyntaxError) : SyntaxError :=
  { e with line := φ e.line }

/-- The cursor with every line moved to the one that `φ` gives for it. -/
def Cursor.relined (φ : Nat → Nat) (c : Cursor) : Cursor where
  rest := c.rest.map (Token.relined φ)
  endLine := φ c.endLine
  size := c.size
  errors := c.errors.map (SyntaxError.relined φ)

namespace Cursor

variable (φ : Nat → Nat) (c : Cursor)

theorem current_relined : (c.relined φ).current = c.current.relined φ := by
  rw [current, relined]
  cases rest : c.rest with
  | nil => rw [current, rest]; rfl
  | cons token tail => rw [current, rest]; rfl

theorem report_relined (cause : SyntaxError.Cause) (token : Token) :
    { c.relined φ with errors := (c.relined φ).errors ++ [.atToken cause (token.relined φ)] } =
      Cursor.relined φ { c with errors := c.errors ++ [.atToken cause token] } := by
  rw [relined, relined, List.map_append]
  rfl

end Cursor

theorem skipToStatement_relined (φ : Nat → Nat) (last : Token.Kind) (tokens : List Token) :
    skipToStatement last (tokens.map (Token.relined φ)) =
      (skipToStatement last tokens).map (Token.relined φ) := by
  induction tokens generalizing last with
  | nil => rfl
  | cons token rest ih =>
      rw [List.map_cons, skipToStatement, skipToStatement, Token.relined_kind]
      split
      · rfl
      · exact ih token.kind

theorem synchronize_relined (φ : Nat → Nat) (tokens : List Token) :
    synchronize (tokens.map (Token.relined φ)) = (synchronize tokens).map (Token.relined φ) := by
  cases tokens with
  | nil => rfl
  | cons token rest => exact skipToStatement_relined φ token.kind rest

namespace Parse

variable {φ : Nat → Nat} {α β α' β' : Type} {f : α → α'} {g : β → β'}

/-- The end of a rule with every line moved; `f` moves those of the result. -/
def moved (φ : Nat → Nat) (f : α → α') :
    EStateM.Result SyntaxError Cursor α → EStateM.Result SyntaxError Cursor α'
  | .ok a c => .ok (f a) (c.relined φ)
  | .error e c => .error (e.relined φ) (c.relined φ)

/-- From a cursor with all lines moved, the second rule comes to the end of the
first with all lines moved. -/
def Relines (φ : Nat → Nat) (f : α → α') (rule : Parse α) (rule' : Parse α') : Prop :=
  ∀ c, rule' (c.relined φ) = moved φ f (rule c)

namespace Relines

variable {rule : Parse α} {rule' : Parse α'}

/-! ## Steps -/

theorem pure (a : α) : Relines φ f (Pure.pure a) (Pure.pure (f a)) := fun _ => rfl

theorem current : Relines φ (Token.relined φ) current current := by
  intro c
  rw [Parse.current, Cursor.current_relined]
  rfl

theorem fail (cause : SyntaxError.Cause) : Relines φ f (fail cause) (fail cause) := by
  intro c
  rw [Parse.fail, Cursor.current_relined]
  rfl

theorem failAt (cause : SyntaxError.Cause) (token : Token) :
    Relines φ f (failAt cause token) (failAt cause (token.relined φ)) := fun _ => rfl

theorem record (cause : SyntaxError.Cause) (token : Token) :
    Relines φ id (record cause token) (record cause (token.relined φ)) := by
  intro c
  rw [Parse.record, Cursor.report_relined]
  rfl

theorem check (kind : Token.Kind) : Relines φ id (check kind) (check kind) := by
  intro c
  rw [Parse.check, Cursor.current_relined]
  rfl

theorem next : Relines φ (Token.relined φ) next next := by
  intro c
  rw [Parse.next, Cursor.current_relined, Parse.next, moved, Cursor.relined, Cursor.relined,
    List.map_tail]

theorem accept? (wanted : List Token.Kind) :
    Relines φ (Option.map (Token.relined φ)) (accept? wanted) (accept? wanted) := by
  intro c
  obtain ⟨_ | ⟨token, tail⟩, endLine, size, errors⟩ := c
  · rfl
  · by_cases wants : token.kind ∈ wanted
    · simp only [Parse.accept?, Cursor.relined, List.map_cons, Token.relined_kind, if_pos wants]
      rfl
    · simp only [Parse.accept?, Cursor.relined, List.map_cons, Token.relined_kind, if_neg wants]
      rfl

theorem bind {k : α → Parse β} {k' : α' → Parse β'} (h : Relines φ f rule rule')
    (hk : ∀ a, Relines φ g (k a) (k' (f a))) : Relines φ g (rule >>= k) (rule' >>= k') := by
  intro c
  rw [bind_apply, bind_apply, h c]
  cases rule c with
  | ok a c' => exact hk a c'
  | error e c' => rfl

/-- If what comes first gives nothing that lines are in. -/
theorem andThen {k : α → Parse β} {k' : α → Parse β'} {rule' : Parse α}
    (h : Relines φ id rule rule') (hk : ∀ a, Relines φ g (k a) (k' a)) :
    Relines φ g (rule >>= k) (rule' >>= k') :=
  h.bind hk

theorem map (h : Relines φ f rule rule') (make : α → β) (make' : α' → β')
    (same : ∀ a, make' (f a) = g (make a)) : Relines φ g (make <$> rule) (make' <$> rule') := by
  have made : ∀ a, Relines φ g (Pure.pure (make a)) (Pure.pure (make' (f a))) := by
    intro a
    rw [same]
    exact pure _
  exact h.bind made

/-- What depends on whether a token was accepted. -/
theorem accepted (wanted : List Token.Kind) {k : Option Token → Parse β}
    {k' : Option Token → Parse β'}
    (h : ∀ token, Relines φ g (k (some token)) (k' (some (token.relined φ))))
    (h' : Relines φ g (k none) (k' none)) :
    Relines φ g (Parse.accept? wanted >>= k) (Parse.accept? wanted >>= k') := by
  refine (accept? wanted).bind fun token => ?_
  cases token with
  | some token => exact h token
  | none => exact h'

theorem expect (kind : Token.Kind) (cause : SyntaxError.Cause) :
    Relines φ (Token.relined φ) (expect kind cause) (expect kind cause) :=
  accepted [kind] pure (fail cause)

/-! ## Loops -/

theorem chain (wanted : List Token.Kind) {step : α → Token → Parse α}
    {step' : α' → Token → Parse α'}
    (h : ∀ a token, Relines φ f (step a token) (step' (f a) (token.relined φ))) (a : α) :
    Relines φ f (chain wanted step a) (chain wanted step' (f a)) := by
  suffices ∀ rounds a, Relines φ f (chainWithin wanted step rounds a)
      (chainWithin wanted step' rounds (f a)) from fun c => this c.size a c
  intro rounds
  induction rounds with
  | zero => exact fun a => pure a
  | succ rounds ih => exact fun a => accepted wanted (fun token => (h a token).bind ih) (pure a)

theorem recovering (h : Relines φ f rule rule') :
    Relines φ (Option.map f) (recovering rule) (recovering rule') := by
  intro c
  rw [Parse.recovering, Parse.recovering, h c]
  cases rule c with
  | ok a c' => rfl
  | error e c' =>
      simp only [moved, Cursor.relined, synchronize_relined, List.map_append]
      rfl

theorem many (closing : Option Token.Kind) (h : Relines φ f rule rule') :
    Relines φ (List.map f) (many closing rule) (many closing rule') := by
  suffices ∀ rounds, Relines φ (List.map f) (manyWithin closing rule rounds)
      (manyWithin closing rule' rounds) from fun c => this c.size c
  intro rounds
  induction rounds with
  | zero => exact pure []
  | succ rounds ih =>
      have round : Relines φ (List.map f)
          (do let first ← Parse.recovering rule
              let others ← manyWithin closing rule rounds
              Pure.pure (first.toList ++ others))
          (do let first ← Parse.recovering rule'
              let others ← manyWithin closing rule' rounds
              Pure.pure (first.toList ++ others)) := by
        refine h.recovering.bind fun first => ih.bind fun others => ?_
        have joined : first.toList.map f ++ others.map f =
            (first.map f).toList ++ others.map f := by
          cases first <;> rfl
        rw [← joined, ← List.map_append]
        exact pure _
      intro c
      have here := round c
      obtain ⟨_ | ⟨token, tail⟩, endLine, size, errors⟩ := c
      · rfl
      · by_cases closed : closing = some token.kind
        · simp only [manyWithin, Cursor.relined, List.map_cons, Token.relined_kind, if_pos closed]
          rfl
        · simp only [manyWithin, Cursor.relined, List.map_cons, Token.relined_kind, if_neg closed]
          exact here

theorem separated {item : Parse α} {item' : Parse α'} (h : Relines φ f item item')
    (tooMany : SyntaxError.Cause) :
    Relines φ (List.map f) (separated item tooMany) (separated item' tooMany) := by
  refine h.bind fun first => chain (f := List.map f) _ (fun items _ => ?_) [first]
  have more : Relines φ (List.map f) (do Pure.pure (items ++ [← item]))
      (do Pure.pure (items.map f ++ [← item'])) := by
    refine h.bind fun last => ?_
    rw [← List.map_singleton, ← List.map_append]
    exact pure _
  rw [List.length_map]
  split
  · exact current.bind fun token => (record tooMany token).andThen fun _ => more
  · exact more

theorem listed {item : Parse α} {item' : Parse α'} (h : Relines φ f item item')
    (tooMany : SyntaxError.Cause) :
    Relines φ (List.map f) (listed item tooMany) (listed item' tooMany) := by
  refine (check .rightParen).andThen fun closed => ?_
  split
  · exact pure []
  · exact separated h tooMany

/-! ## Expressions -/

section

variable {expression operand : Parse Expr}

theorem primary (h : Relines φ (Expr.relined φ) expression expression) :
    Relines φ (Expr.relined φ) (primary expression) (primary expression) := by
  refine current.bind fun token => ?_
  obtain ⟨kind, lexeme, literal, line⟩ := token
  cases kind
  case kwFalse | kwTrue | kwNil | number | string =>
      cases literal with
      | some value => exact next.bind fun _ => pure (Expr.literal value)
      | none => exact fail _
  case identifier => exact next.bind fun _ => pure (Expr.identifier _)
  case leftParen =>
      exact next.bind fun _ => h.bind fun inner => (expect _ _).bind fun _ =>
        pure (Expr.grouping inner)
  all_goals exact fail _

theorem call (h : Relines φ (Expr.relined φ) expression expression) :
    Relines φ (Expr.relined φ) (call expression) (call expression) := by
  refine (primary h).bind fun callee => chain _ (fun callee _ => ?_) callee
  refine (listed h _).bind fun arguments => (expect _ _).bind fun paren => ?_
  have tree : (Expr.call callee paren arguments).relined φ =
      .call (callee.relined φ) (paren.relined φ) (arguments.map (Expr.relined φ)) := by
    rw [Expr.relined, Expr.relinedAll_eq]
  rw [← tree]
  exact pure _

theorem prefixed (h : Relines φ (Expr.relined φ) operand operand)
    (h' : Relines φ (Expr.relined φ) expression expression) :
    Relines φ (Expr.relined φ) (prefixed operand expression) (prefixed operand expression) :=
  accepted _ (fun operator => h.bind fun inner => pure (Expr.unary operator inner)) (call h')

theorem node_relined : ∀ level ∈ infixLevels, ∀ (left : Expr) (operator : Token) (right : Expr),
    (level.node left operator right).relined φ =
      level.node (left.relined φ) (operator.relined φ) (right.relined φ) := by
  intro level member left operator right
  simp only [infixLevels, List.mem_cons, List.not_mem_nil, or_false] at member
  rcases member with rfl | rfl | rfl | rfl | rfl | rfl <;> rfl

theorem infixed (h : Relines φ (Expr.relined φ) operand operand) {levels : List Level}
    (known : ∀ level ∈ levels, level ∈ infixLevels) :
    Relines φ (Expr.relined φ) (infixed operand levels) (infixed operand levels) := by
  induction levels with
  | nil => exact h
  | cons level tighter ih =>
      obtain ⟨here, known⟩ := List.forall_mem_cons.1 known
      refine (ih known).bind fun first => chain _ (fun left operator => ?_) first
      refine (ih known).bind fun right => ?_
      rw [← node_relined level here]
      exact pure _

theorem assignment (h : Relines φ (Expr.relined φ) operand operand) :
    Relines φ (Expr.relined φ) (assignment operand) (assignment operand) := by
  have side : Relines φ (Expr.relined φ) (Parse.infixed operand infixLevels)
      (Parse.infixed operand infixLevels) := infixed h fun _ => id
  suffices ∀ rounds, Relines φ (Expr.relined φ) (assignmentWithin operand rounds)
      (assignmentWithin operand rounds) from fun c => this c.size c
  intro rounds
  induction rounds with
  | zero => exact side
  | succ rounds ih =>
      refine side.bind fun target => accepted _ (fun equals => ?_) (pure target)
      refine ih.bind fun value => ?_
      cases target
      case identifier name => exact pure (Expr.assign name value)
      all_goals exact (record _ equals).andThen fun _ => pure _

end

theorem operand : ∀ levels, Relines φ (Expr.relined φ) (operand levels) (operand levels)
  | 0 => prefixed (fail _) (fail _)
  | levels + 1 => prefixed (operand levels) (assignment (operand levels))

theorem expression : ∀ levels, Relines φ (Expr.relined φ) (expression levels) (expression levels)
  | 0 => fail _
  | levels + 1 => assignment (operand levels)

/-! ## Statements -/

section

variable {expression : Parse Expr} {statement : Parse Stmt}

/-- A rule for one more token and what is made then. -/
theorem closed (kind : Token.Kind) (cause : SyntaxError.Cause) {a : α} {a' : α'} (h : a' = f a) :
    Relines φ f (do let _ ← Parse.expect kind cause; Pure.pure a)
      (do let _ ← Parse.expect kind cause; Pure.pure a') := by
  subst h
  exact (expect kind cause).bind fun _ => pure a

theorem varDeclaration (h : Relines φ (Expr.relined φ) expression expression) :
    Relines φ (Stmt.relined φ) (varDeclaration expression) (varDeclaration expression) :=
  (expect _ _).bind fun _ => accepted _
    (fun _ => h.bind fun _ => closed _ _ rfl)
    ((pure (f := Expr.relined φ) _).bind fun _ => closed _ _ rfl)

theorem declaration (h : Relines φ (Expr.relined φ) expression expression)
    (h' : Relines φ (Stmt.relined φ) statement statement) :
    Relines φ (Stmt.relined φ) (declaration expression statement)
      (declaration expression statement) :=
  accepted _ (fun _ => varDeclaration h) h'

theorem block (h : Relines φ (Stmt.relined φ) statement statement) :
    Relines φ (List.map (Stmt.relined φ)) (block statement) (block statement) :=
  (many _ h).bind fun _ => closed _ _ rfl

theorem printStatement (h : Relines φ (Expr.relined φ) expression expression) :
    Relines φ (Stmt.relined φ) (printStatement expression) (printStatement expression) :=
  h.bind fun _ => closed _ _ rfl

theorem expressionStatement (h : Relines φ (Expr.relined φ) expression expression) :
    Relines φ (Stmt.relined φ) (expressionStatement expression) (expressionStatement expression) :=
  h.bind fun _ => closed _ _ rfl

theorem ifStatement (h : Relines φ (Expr.relined φ) expression expression)
    (h' : Relines φ (Stmt.relined φ) statement statement) :
    Relines φ (Stmt.relined φ) (ifStatement expression statement)
      (ifStatement expression statement) :=
  (expect _ _).bind fun _ => h.bind fun condition => (expect _ _).bind fun _ =>
    h'.bind fun thenBranch => accepted _
      (fun _ => h'.bind fun elseBranch => pure (Stmt.ifElse condition thenBranch elseBranch))
      (pure (Stmt.ifThen condition thenBranch))

theorem whileStatement (h : Relines φ (Expr.relined φ) expression expression)
    (h' : Relines φ (Stmt.relined φ) statement statement) :
    Relines φ (Stmt.relined φ) (whileStatement expression statement)
      (whileStatement expression statement) :=
  (expect _ _).bind fun _ => h.bind fun condition => (expect _ _).bind fun _ =>
    h'.bind fun body => pure (Stmt.whileLoop condition body)

/-- What may be left out when the given kind comes next, and the rule after it. -/
theorem optional (kind : Token.Kind) {absent : α} {absent' : α'} (left : absent' = f absent)
    (h : Relines φ f rule rule') {next : α → Parse β} {next' : α' → Parse β'}
    (h' : ∀ a, Relines φ g (next a) (next' (f a))) : Relines φ g
      (do if ← Parse.check kind then Pure.pure absent >>= next else rule >>= next)
      (do if ← Parse.check kind then Pure.pure absent' >>= next' else rule' >>= next') := by
  subst left
  refine (check kind).andThen fun closed => ?_
  split
  · exact (pure absent).bind h'
  · exact h.bind h'

theorem forLoop_relined (initial : Option Stmt) (condition : Expr) (increment : Option Expr)
    (body : Stmt) : (forLoop initial condition increment body).relined φ =
      forLoop (initial.map (Stmt.relined φ)) (condition.relined φ)
        (increment.map (Expr.relined φ)) (body.relined φ) := by
  cases initial <;> cases increment <;> rfl

theorem forInitial (h : Relines φ (Expr.relined φ) expression expression) :
    Relines φ (Option.map (Stmt.relined φ)) (forInitial expression) (forInitial expression) := by
  refine accepted _ (fun token => ?_) ((expressionStatement h).map _ _ fun _ => rfl)
  dsimp only
  by_cases absent : token.kind = .semicolon
  · rw [if_pos absent, if_pos (show (token.relined φ).kind = _ from absent)]
    exact pure none
  · rw [if_neg absent, if_neg (show ¬ (token.relined φ).kind = _ from absent)]
    exact (varDeclaration h).map _ _ fun _ => rfl

theorem forStatement (h : Relines φ (Expr.relined φ) expression expression)
    (h' : Relines φ (Stmt.relined φ) statement statement) :
    Relines φ (Stmt.relined φ) (forStatement expression statement)
      (forStatement expression statement) := by
  refine (expect _ _).bind fun _ => (forInitial h).bind fun initial => ?_
  refine optional (f := Expr.relined φ) _ rfl h fun condition => (expect _ _).bind fun _ => ?_
  refine optional (f := Option.map (Expr.relined φ)) _ rfl (h.map _ _ fun _ => rfl)
    fun increment => (expect _ _).bind fun _ => h'.bind fun body => ?_
  rw [← forLoop_relined]
  exact pure _

theorem functionStatement (h : Relines φ (Stmt.relined φ) statement statement) :
    Relines φ (Stmt.relined φ) (functionStatement statement) (functionStatement statement) := by
  refine (expect _ _).bind fun name => (expect _ _).bind fun _ =>
    (listed (expect _ _) _).bind fun params => (expect _ _).bind fun _ =>
      (expect _ _).bind fun _ => (block h).bind fun body => ?_
  rw [← Stmt.relinedAll_eq]
  exact pure (Stmt.function name params body)

theorem returnStatement (h : Relines φ (Expr.relined φ) expression expression) (functions : Nat)
    (keyword : Token) : Relines φ (Stmt.relined φ) (returnStatement expression functions keyword)
      (returnStatement expression functions (keyword.relined φ)) := by
  have rest : Relines φ (Stmt.relined φ)
      (do let value ← if ← Parse.check .semicolon then Pure.pure none else some <$> expression
          let _ ← Parse.expect .semicolon .semicolonAfterReturnMissing
          Pure.pure (.returns keyword value))
      (do let value ← if ← Parse.check .semicolon then Pure.pure none else some <$> expression
          let _ ← Parse.expect .semicolon .semicolonAfterReturnMissing
          Pure.pure (.returns (keyword.relined φ) value)) :=
    optional (f := Option.map (Expr.relined φ)) _ rfl (h.map _ _ fun _ => rfl)
      fun _ => closed _ _ rfl
  rw [Parse.returnStatement, Parse.returnStatement]
  split
  · exact (record _ keyword).andThen fun _ => rest
  · exact rest

end

theorem statementBody {expression : Parse Expr} {statement : Nat → Parse Stmt}
    (h : Relines φ (Expr.relined φ) expression expression)
    (h' : ∀ functions, Relines φ (Stmt.relined φ) (statement functions) (statement functions))
    (functions : Nat) : Relines φ (Stmt.relined φ) (statementBody expression statement functions)
      (statementBody expression statement functions) := by
  refine accepted _ (fun token => ?_) (expressionStatement h)
  dsimp only [Token.relined_kind]
  cases token.kind
  case kwPrint => exact printStatement h
  case leftBrace =>
      refine (block (declaration h (h' functions))).map _ _ fun statements => ?_
      rw [Stmt.relined, Stmt.relinedAll_eq]
  case kwIf => exact ifStatement h (h' functions)
  case kwWhile => exact whileStatement h (h' functions)
  case kwFor => exact forStatement h (h' functions)
  case kwFun => exact functionStatement (declaration h (h' (functions + 1)))
  case kwReturn => exact returnStatement h functions token
  all_goals exact failAt _ token

theorem statement : ∀ levels functions,
    Relines φ (Stmt.relined φ) (statement levels functions) (statement levels functions)
  | 0, _ => fail _
  | levels + 1, functions => statementBody (expression levels) (statement levels) functions

theorem program : Relines φ (Program.relined φ) program program :=
  many _ (declaration (expression _) (statement _ _))

end Relines

end Parse

/-! ## Token lists -/

theorem Cursor.endLineOf_relined (φ : Nat → Nat) {tokens : List Token} (some : tokens ≠ []) :
    endLineOf (tokens.map (Token.relined φ)) = φ (endLineOf tokens) := by
  have ends : (tokens.map (Token.relined φ)).find? (·.kind = .eof) =
      (tokens.find? (·.kind = .eof)).map (Token.relined φ) := List.find?_map
  rw [endLineOf, endLineOf, ends, List.getLast?_map]
  cases tokens.find? (·.kind = .eof) with
  | some eof => rfl
  | none =>
      cases last : tokens.getLast? with
      | some token => rfl
      | none => exact absurd (List.getLast?_eq_none_iff.1 last) some

/-- Moving lines moves the end with them, if there are tokens at all. -/
theorem Cursor.ofTokens_relined (φ : Nat → Nat) {tokens : List Token} (some : tokens ≠ []) :
    ofTokens (tokens.map (Token.relined φ)) = (ofTokens tokens).relined φ := by
  have readable : (tokens.map (Token.relined φ)).takeWhile (·.kind ≠ .eof) =
      (tokens.takeWhile (·.kind ≠ .eof)).map (Token.relined φ) := List.takeWhile_map
  rw [ofTokens, ofTokens, readable, endLineOf_relined φ some, List.length_map]
  rfl

/-- The parser comes to the same end on other lines: the same program, or the same
errors in the same order, on the lines that the tokens were moved to. -/
theorem Program.parse_relined (φ : Nat → Nat) {tokens : List Token} (some : tokens ≠ []) :
    parse (tokens.map (Token.relined φ)) =
      match parse tokens with
      | .ok program => .ok (program.relined φ)
      | .error errors => .error (errors.map (SyntaxError.relined φ)) := by
  rw [parse, parse, Cursor.ofTokens_relined φ some, Parse.Relines.program]
  cases Parse.program (Cursor.ofTokens tokens) with
  | ok statements c =>
      have none : (c.relined φ).errors = [] ↔ c.errors = [] := List.map_eq_nil_iff
      simp only [Parse.moved, none]
      split <;> rfl
  | error e c =>
      simp only [Parse.moved, List.map_append]
      rfl

end Scriptlet
