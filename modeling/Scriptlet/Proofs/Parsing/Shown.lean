/-
# The end of the tokens

In a whole list every rule of the grammar does as a cursor shows, rule by rule, since
the rules in it do (`Indexed.AsShown`).  So a reader that has an end-of-file token
before it, and whatever stands behind that, parses the list as one that has neither
(`Indexed.parse_eq`), and stops before that token (`Indexed.program_stops`).

What a script comes to is therefore the same without the token of its end, with it, and
with more behind it (`Program.parse_to_end`).
-/
import Scriptlet.Proofs.Parsing.Position
import Scriptlet.Proofs.Parsing.Progress

namespace Scriptlet

open Grammar

namespace Indexed

namespace AsShown

variable {α β : Type}

/-! ## Lists -/

theorem listed {item : Indexed α} {item' : Parse α} (h : AsShown item item')
    (tooMany : SyntaxError.Cause) :
    AsShown (listed item tooMany) (Parse.listed item' tooMany) := by
  have separated : AsShown (separated item tooMany) (Parse.separated item' tooMany) := by
    refine h.bind fun first => chain (by decide) (fun items _ => ?_) _
    dsimp only
    split
    · exact recordCurrent tooMany (h.bind fun _ => pure _)
    · exact h.bind fun _ => pure _
  refine (check .rightParen).bind fun closed => ?_
  split
  · exact pure []
  · exact separated

/-! ## Expressions -/

section

variable {expression operand : Indexed Expr} {expression' operand' : Parse Expr}

theorem primary (h : AsShown expression expression') :
    AsShown (primary expression) (Parse.primary expression') := by
  refine current fun tokens r c shown => ?_
  by_cases ends : r.current.kind = .eof
  · -- what is shown of the end is not the token itself, but no case looks further at it
    have ends' := shown.current_kind.symm.trans ends
    simp only [ends, ends']
    exact fail _ shown
  · rw [shown.current_eq ends]
    cases c.current.kind
    case identifier => exact (pure _).next shown
    case leftParen => exact (h.bind fun _ => expect (by decide) fun _ => pure _).next shown
    case kwFalse | kwTrue | kwNil | number | string =>
      cases c.current.literal with
      | some value => exact (pure _).next shown
      | none => exact fail _ shown
    all_goals exact fail _ shown

theorem call (h : AsShown expression expression') :
    AsShown (call expression) (Parse.call expression') :=
  (primary h).bind fun _ => chain (by decide) (fun _ _ => (listed h _).bind fun _ =>
    expect (by decide) fun _ => pure _) _

theorem prefixed (h : AsShown operand operand') (h' : AsShown expression expression') :
    AsShown (prefixed operand expression) (Parse.prefixed operand' expression') :=
  accept (by decide) (fun _ => h.bind fun _ => pure _) (call h')

theorem infixed (h : AsShown operand operand') :
    ∀ {levels : List Parse.Level}, (∀ level ∈ levels, .eof ∉ level.operators) →
      AsShown (infixed operand levels) (Parse.infixed operand' levels)
  | [], _ => h
  | _ :: _, real => by
    obtain ⟨first, tighter⟩ := List.forall_mem_cons.1 real
    exact (infixed h tighter).bind fun _ =>
      chain first (fun _ _ => (infixed h tighter).bind fun _ => pure _) _

theorem assignment (h : AsShown operand operand') :
    AsShown (assignment operand) (Parse.assignment operand') := by
  have joined : AsShown (Indexed.infixed operand Parse.infixLevels)
      (Parse.infixed operand' Parse.infixLevels) := h.infixed (by decide)
  have within : ∀ rounds, AsShown (assignmentWithin operand rounds)
      (Parse.assignmentWithin operand' rounds) := by
    intro rounds
    induction rounds with
    | zero => exact joined
    | succ rounds ih =>
        refine joined.bind fun target => accept (by decide) (fun equals => ?_) (pure target)
        refine ih.bind fun value => ?_
        cases target
        case identifier name => exact pure _
        all_goals exact (record _ equals).bind fun _ => pure _
  exact loop within

end

theorem operand : ∀ levels, AsShown (operand levels) (Parse.operand levels)
  | 0 => prefixed (fail _) (fail _)
  | levels + 1 => prefixed (operand levels) (assignment (operand levels))

theorem expression : ∀ levels, AsShown (expression levels) (Parse.expression levels)
  | 0 => fail _
  | levels + 1 => assignment (operand levels)

/-! ## Statements -/

section

variable {expression : Indexed Expr} {expression' : Parse Expr}
  {statement : Indexed Stmt} {statement' : Parse Stmt}

theorem varDeclaration (h : AsShown expression expression') :
    AsShown (varDeclaration expression) (Parse.varDeclaration expression') :=
  expect (by decide) fun _ => accept (by decide)
    (fun _ => h.bind fun _ => expect (by decide) fun _ => pure _)
    ((pure _).bind fun _ => expect (by decide) fun _ => pure _)

theorem declaration (h : AsShown expression expression') (h' : AsShown statement statement') :
    AsShown (declaration expression statement) (Parse.declaration expression' statement') :=
  accept (by decide) (fun _ => varDeclaration h) h'

theorem block (h : AsShown statement statement') :
    AsShown (block statement) (Parse.block statement') :=
  (many _ h).bind fun _ => expect (by decide) fun _ => pure _

theorem printStatement (h : AsShown expression expression') :
    AsShown (printStatement expression) (Parse.printStatement expression') :=
  h.bind fun _ => expect (by decide) fun _ => pure _

theorem expressionStatement (h : AsShown expression expression') :
    AsShown (expressionStatement expression) (Parse.expressionStatement expression') :=
  h.bind fun _ => expect (by decide) fun _ => pure _

theorem ifStatement (h : AsShown expression expression') (h' : AsShown statement statement') :
    AsShown (ifStatement expression statement) (Parse.ifStatement expression' statement') :=
  expect (by decide) fun _ => h.bind fun _ => expect (by decide) fun _ =>
    h'.bind fun _ => accept (by decide) (fun _ => h'.bind fun _ => pure _) (pure _)

theorem whileStatement (h : AsShown expression expression') (h' : AsShown statement statement') :
    AsShown (whileStatement expression statement)
      (Parse.whileStatement expression' statement') :=
  expect (by decide) fun _ => h.bind fun _ => expect (by decide) fun _ =>
    h'.bind fun _ => pure _

/-- What may be left out when the given kind comes next, and the rule after it. -/
theorem optional {indexed : Indexed α} {rule : Parse α} (kind : Token.Kind) (absent : α)
    (h : AsShown indexed rule) {next : α → Indexed β} {next' : α → Parse β}
    (h' : ∀ a, AsShown (next a) (next' a)) :
    AsShown (do if ← Indexed.check kind then Pure.pure absent >>= next else indexed >>= next)
      (do if ← Parse.check kind then Pure.pure absent >>= next' else rule >>= next') := by
  refine (check kind).bind fun closed => ?_
  split
  · exact (pure absent).bind h'
  · exact h.bind h'

theorem forInitial (h : AsShown expression expression') :
    AsShown (forInitial expression) (Parse.forInitial expression') := by
  refine accept (by decide) (fun token => ?_) ((expressionStatement h).map some)
  dsimp only
  split
  · exact pure none
  · exact (varDeclaration h).map some

theorem forStatement (h : AsShown expression expression') (h' : AsShown statement statement') :
    AsShown (forStatement expression statement) (Parse.forStatement expression' statement') :=
  expect (by decide) fun _ => (forInitial h).bind fun _ =>
    optional _ _ h fun _ => expect (by decide) fun _ =>
      optional _ _ (h.map some) fun _ => expect (by decide) fun _ => h'.bind fun _ => pure _

theorem functionStatement (h : AsShown statement statement') :
    AsShown (functionStatement statement) (Parse.functionStatement statement') :=
  expect (by decide) fun _ => expect (by decide) fun _ =>
    (listed (token (by decide) _) _).bind fun _ => expect (by decide) fun _ =>
      expect (by decide) fun _ => (block h).bind fun _ => pure _

theorem returnStatement (h : AsShown expression expression') (functions : Nat)
    (keyword : Token) : AsShown (returnStatement expression functions keyword)
      (Parse.returnStatement expression' functions keyword) := by
  have rest : AsShown
      (do
        let value ← if ← Indexed.check .semicolon then Pure.pure none else some <$> expression
        let _ ← Indexed.expect .semicolon .semicolonAfterReturnMissing
        Pure.pure (Stmt.returns keyword value) : Indexed Stmt)
      (do
        let value ← if ← Parse.check .semicolon then Pure.pure none else some <$> expression'
        let _ ← Parse.expect .semicolon .semicolonAfterReturnMissing
        Pure.pure (Stmt.returns keyword value) : Parse Stmt) :=
    optional _ _ (h.map some) fun _ => expect (by decide) fun _ => pure _
  unfold Indexed.returnStatement Parse.returnStatement
  split
  · exact (record _ keyword).bind fun _ => rest
  · exact rest

theorem statementBody {statement : Nat → Indexed Stmt} {statement' : Nat → Parse Stmt}
    (h : AsShown expression expression')
    (h' : ∀ functions, AsShown (statement functions) (statement' functions)) (functions : Nat) :
    AsShown (statementBody expression statement functions)
      (Parse.statementBody expression' statement' functions) := by
  refine accept (by decide) (fun token => ?_) (expressionStatement h)
  dsimp only
  cases token.kind
  case kwPrint => exact printStatement h
  case leftBrace => exact (block (declaration h (h' functions))).map _
  case kwIf => exact ifStatement h (h' functions)
  case kwWhile => exact whileStatement h (h' functions)
  case kwFor => exact forStatement h (h' functions)
  case kwFun => exact functionStatement (declaration h (h' (functions + 1)))
  case kwReturn => exact returnStatement h functions token
  all_goals exact failAt _ token

end

theorem statement : ∀ levels functions,
    AsShown (statement levels functions) (Parse.statement levels functions)
  | 0, _ => fail _
  | levels + 1, functions => statementBody (expression levels) (statement levels) functions

theorem program : AsShown program Parse.program :=
  many none (declaration (expression maxNesting) (statement maxNesting 0))

end AsShown

/-! ## Whole scripts -/

/-- A whole list is read up to its first end-of-file token, or else to its end, and no
further, to the same statements and errors as on a cursor. -/
theorem program_stops (tokens : List Token) : ∃ statements r,
    program (.ofTokens tokens) = .ok statements r ∧ r.tokens = tokens ∧ r.atEnd ∧
      (∀ token ∈ tokens.take r.index, token.kind ≠ .eof) ∧
      Program.parse tokens = if r.errors = [] then .ok statements else .error r.errors := by
  obtain ⟨statements, c, passes, ended, runs⟩ := Parse.exists_passes none maxNesting 0
    (Nat.le_refl (Cursor.ofTokens tokens).rest.length)
  have few : (Cursor.ofTokens tokens).rest.length ≤ tokens.length :=
    (List.takeWhile_prefix _).length_le
  have run : SameEnd tokens (program (.ofTokens tokens))
      (.ok statements (c.behind [] tokens.length)) := by
    rw [← runs tokens.length few]
    exact AsShown.program (Reader.shown_ofTokens tokens)
  have nothing := Parse.ended_none_iff.1 ended
  generalize program (.ofTokens tokens) = result at run ⊢
  cases run with
  | @ok _ r _ shown =>
    have errors : r.errors = c.errors := shown.errors.symm
    have atEnd : r.atEnd := by
      obtain ⟨atEnd, -⟩ | ⟨-, tail, rest, -⟩ := shown.cases
      · exact atEnd
      · cases nothing.symm.trans rest
    refine ⟨statements, r, rfl, shown.whole, atEnd, shown.whole ▸ shown.passed, ?_⟩
    rw [Program.parse_of_passes passes nothing, errors]

/-- The end of a script and what stands behind it make no difference to a parse that has
them before it. -/
theorem parse_eq (tokens : List Token) : parse tokens = Program.parse tokens := by
  obtain ⟨statements, r, run, -, -, -, result⟩ := program_stops tokens
  rw [parse, run, result]

end Indexed

/-! ## The first end of a script -/

section End

variable {tokens : List Token} (real : ∀ token ∈ tokens, token.kind ≠ .eof) {eof : Token}
  (ends : eof.kind = .eof) (line : eof.line = Indexed.lastLine tokens)

include real ends line

theorem Cursor.ofTokens_append_eof (more : List Token) :
    ofTokens (tokens ++ eof :: more) = ofTokens tokens := by
  have nothing : readable (eof :: more) = [] :=
    List.takeWhile_cons_of_neg (by simpa using ends)
  have same : readable (tokens ++ eof :: more) = readable tokens := by
    rw [readable_append real, nothing, List.append_nil, readable_of_real real]
  have lines : endLineOf (tokens ++ eof :: more) = endLineOf tokens := by
    rw [Indexed.endLineOf_append_eof real ends, Indexed.endLineOf_of_real real, line]
  unfold ofTokens
  rw [lines]
  exact congrArg (fun rest => Cursor.mk rest (endLineOf tokens) rest.length []) same

/-- It makes no difference to a parse whether a script has an end-of-file token and what
stands behind that.  This holds of a parse that has the whole script before it, as of
one on a cursor, for they come to the same on every token list; and the one that has it
before it stops at the first end-of-file token, or else behind the last token. -/
theorem Program.parse_to_end (more : List Token) :
    (∀ script ∈ [tokens ++ [eof], tokens ++ eof :: more],
      Indexed.parse script = Indexed.parse tokens ∧ parse script = parse tokens) ∧
    (∀ script, Indexed.parse script = parse script) ∧
    ∀ script, ∃ statements r, Indexed.program (.ofTokens script) = .ok statements r ∧
      r.tokens = script ∧ r.atEnd ∧ ∀ token ∈ script.take r.index, token.kind ≠ .eof := by
  have same (behind : List Token) : parse (tokens ++ eof :: behind) = parse tokens := by
    rw [parse, parse, Cursor.ofTokens_append_eof real ends line]
  refine ⟨fun script among => ?_, Indexed.parse_eq, fun script => ?_⟩
  · rw [Indexed.parse_eq, Indexed.parse_eq, and_self]
    obtain rfl | rfl : script = tokens ++ [eof] ∨ script = tokens ++ eof :: more := by
      simpa using among
    · exact same []
    · exact same more
  · obtain ⟨statements, r, run, whole, atEnd, passed, -⟩ := Indexed.program_stops script
    exact ⟨statements, r, run, whole, atEnd, passed⟩

end End

/-- The end comes in the arguments of a call in the body of a function, and what stands
behind it would close all of them. -/
theorem Program.parse_to_end_unclosed :
    let tokens : List Token := [⟨.kwFun, "fun", none, 1⟩, ⟨.identifier, "f", none, 1⟩,
      ⟨.leftParen, "(", none, 1⟩, ⟨.rightParen, ")", none, 1⟩, ⟨.leftBrace, "\x7b", none, 1⟩,
      ⟨.identifier, "g", none, 2⟩, ⟨.leftParen, "(", none, 2⟩]
    let more : List Token := [⟨.rightParen, ")", none, 2⟩, ⟨.semicolon, ";", none, 2⟩,
      ⟨.rightBrace, "\x7d", none, 3⟩, .endOfFile 3]
    Indexed.parse (tokens ++ .endOfFile 2 :: more) = .error [⟨2, .atEnd, .expressionMissing⟩,
      ⟨2, .atEnd, .blockNotClosed⟩] := by
  intro tokens more
  have real : ∀ token ∈ tokens, token.kind ≠ .eof := by decide
  have ends : (Token.endOfFile 2).kind = .eof := rfl
  obtain ⟨same, shown, -⟩ := parse_to_end real ends rfl more
  have scripts := same (tokens ++ .endOfFile 2 :: more) (List.mem_cons_of_mem _ List.mem_cons_self)
  exact scripts.1.trans ((shown tokens).trans rfl)

end Scriptlet
