/-
# The counters are right

Parsing with counters comes to what parsing without them comes to, and at every
moment on the way the counters are the numbers of levels and of function bodies that
are open (`Tally.counters_exact`).  It is shown rule by rule: each rule counts
(`Tally.Counts`), since the rules in it do.

So a return is judged by the functions that are really open around it, whatever
errors there have been before.  But not every return is judged.  Where a rule fails at
one, recovery skips it, and there is the error of the rule instead, whether a function
is open or not (`Tally.return_unjudged`).  Past the first token recovery stops at a
return, so there is such an error for each that is skipped.
-/
import Scriptlet.Proofs.Parsing.Counts
import Scriptlet.Proofs.Parsing.Progress

namespace Scriptlet

namespace Tally

namespace Counts

variable {α β : Type} {levels functions : Nat}

/-! ## Lists -/

theorem listed {item : Tally α} {item' : Parse α} (h : Counts levels functions [] item item')
    {tooMany : SyntaxError.Cause} (known : tooMany ∉ .returnOutsideFunction :: tooDeep) :
    Counts levels functions [] (listed item tooMany) (Parse.listed item' tooMany) := by
  have separated : Counts levels functions [] (separated item tooMany)
      (Parse.separated item' tooMany) := by
    refine h.bind fun first => chain (by decide) (fun items _ => ?_) _
    dsimp only
    split
    · exact current fun r fits => (record known _).bind (fun _ => h.bind fun _ => pure _) r fits
    · exact h.bind fun _ => pure _
  refine within ((check .rightParen).bind fun closed => ?_)
  split
  · exact pure []
  · exact separated

/-! ## Expressions -/

section

variable {expression operand : Tally Expr} {expression' operand' : Parse Expr}

theorem primary (h : Counts levels functions [] expression expression') :
    Counts levels functions [] (primary expression) (Parse.primary expression') := by
  refine within (current fun r fits => ?_)
  have read {kind : Token.Kind} (hk : r.cursor.current.kind = kind) (real : kind ≠ .eof)
      (other : kind ≠ .kwReturn) : CountsFrom r [] Tally.next Parse.next :=
    next fits (hk ▸ real) (hk ▸ other)
  cases hk : r.cursor.current.kind
  case identifier => exact bindFrom (read hk (by decide) (by decide)) fits fun _ => pure _
  case leftParen =>
    exact bindFrom (read hk (by decide) (by decide)) fits fun _ => h.bind fun _ =>
      closed (by decide) _
  case kwFalse | kwTrue | kwNil | number | string =>
    cases r.cursor.current.literal with
    | some value => exact bindFrom (read hk (by decide) (by decide)) fits fun _ => pure _
    | none => exact fail (by decide) r fits
  all_goals exact fail (by decide) r fits

theorem call (h : Counts levels functions [] expression expression') :
    Counts levels functions [] (call expression) (Parse.call expression') :=
  within ((primary h).bind fun _ =>
    chain (by decide) (fun _ _ => (listed h (by decide)).bind fun _ =>
      expect (by decide) fun _ => pure _) _)

theorem prefixed (h : Counts levels functions [] operand operand')
    (h' : Counts levels functions [] expression expression') :
    Counts levels functions [] (prefixed operand expression)
      (Parse.prefixed operand' expression') :=
  within (accept (by decide) (fun _ => h.bind fun _ => pure _) (call h'))

theorem infixed (h : Counts levels functions [] operand operand') :
    ∀ {joining : List Parse.Level}, (∀ level ∈ joining, .kwReturn ∉ level.operators) →
      Counts levels functions [] (infixed operand joining) (Parse.infixed operand' joining)
  | [], _ => h
  | _ :: _, others => by
    obtain ⟨first, tighter⟩ := List.forall_mem_cons.1 others
    exact within ((infixed h tighter).bind fun _ =>
      chain first (fun _ _ => (infixed h tighter).bind fun _ => pure _) _)

theorem assignment (h : Counts levels functions [] operand operand') :
    Counts levels functions [] (assignment operand) (Parse.assignment operand') := by
  suffices ∀ rounds, Counts levels functions [] (assignmentWithin operand rounds)
      (Parse.assignmentWithin operand' rounds) from fun r fits => this r.cursor.size r fits
  have joined : Counts levels functions [] (Tally.infixed operand Parse.infixLevels)
      (Parse.infixed operand' Parse.infixLevels) := h.infixed (by decide)
  intro rounds
  induction rounds with
  | zero => exact within joined
  | succ rounds ih =>
      refine within (joined.bind fun target => accept (by decide) (fun equals => ?_) (pure target))
      refine ih.bind fun value => ?_
      cases target
      case identifier name => exact pure _
      all_goals exact (record (by decide) equals).bind fun _ => pure _

end

/-- An expression opens one of the levels. -/
theorem expression {rule : Tally Expr} (h : ∀ inner < levels,
      Counts inner functions [] rule (Parse.operand inner)) :
    Counts levels functions [] (expression rule) (Parse.expression levels) := by
  refine within ?_
  cases levels with
  | zero => exact failDeep (by decide)
  | succ levels => exact nested (assignment (h levels (Nat.lt_succ_self levels)))

/-- By induction on fuel, which is more than the levels that may be opened: where none
may, the rule inside is not run. -/
theorem operand : ∀ {fuel levels : Nat}, levels < fuel →
    Counts levels functions [] (operand fuel) (Parse.operand levels)
  | 0, levels, h => absurd h (Nat.not_lt_zero levels)
  | fuel + 1, 0, h => prefixed (failDeep (by decide)) (expression fun inner few =>
      absurd few (Nat.not_lt_zero inner))
  | fuel + 1, levels + 1, h => by
    have inside (inner : Nat) (few : inner < levels + 1) :
        Counts inner functions [] (Tally.operand fuel) (Parse.operand inner) :=
      operand (by omega)
    exact prefixed (nested (inside levels (Nat.lt_succ_self levels))) (expression inside)

/-! ## Statements -/

section

variable {expression : Tally Expr} {expression' : Parse Expr}
  {statement : Tally Stmt} {statement' : Parse Stmt}

theorem varDeclaration (h : Counts levels functions [] expression expression') :
    Counts levels functions [] (varDeclaration expression) (Parse.varDeclaration expression') :=
  within (expect (by decide) fun _ => accept (by decide)
    (fun _ => h.bind fun _ => closed (by decide) _)
    ((pure _).bind fun _ => closed (by decide) _))

theorem declaration (h : Counts levels functions [] expression expression')
    (h' : Counts levels functions [] statement statement') :
    Counts levels functions [] (declaration expression statement)
      (Parse.declaration expression' statement') :=
  within (accept (by decide) (fun _ => varDeclaration h) h')

theorem block (h : Counts levels functions [] statement statement') :
    Counts levels functions [] (block statement) (Parse.block statement') :=
  within ((many _ h).bind fun _ => closed (by decide) _)

theorem printStatement (h : Counts levels functions [] expression expression') :
    Counts levels functions [] (printStatement expression) (Parse.printStatement expression') :=
  within (h.bind fun _ => closed (by decide) _)

theorem expressionStatement (h : Counts levels functions [] expression expression') :
    Counts levels functions [] (expressionStatement expression)
      (Parse.expressionStatement expression') :=
  within (h.bind fun _ => closed (by decide) _)

theorem ifStatement (h : Counts levels functions [] expression expression')
    (h' : Counts levels functions [] statement statement') :
    Counts levels functions [] (ifStatement expression statement)
      (Parse.ifStatement expression' statement') :=
  within (expect (by decide) fun _ => h.bind fun _ => expect (by decide) fun _ =>
    h'.bind fun _ => accept (by decide) (fun _ => h'.bind fun _ => pure _) (pure _))

theorem whileStatement (h : Counts levels functions [] expression expression')
    (h' : Counts levels functions [] statement statement') :
    Counts levels functions [] (whileStatement expression statement)
      (Parse.whileStatement expression' statement') :=
  within (expect (by decide) fun _ => h.bind fun _ => expect (by decide) fun _ =>
    h'.bind fun _ => pure _)

/-- What may be left out when the given kind comes next, and the rule after it. -/
theorem optional {counting : Tally α} {rule : Parse α} (kind : Token.Kind) (absent : α)
    (h : Counts levels functions [] counting rule) {next : α → Tally β} {next' : α → Parse β}
    (h' : ∀ a, Counts levels functions [] (next a) (next' a)) :
    Counts levels functions []
      (do if ← Tally.check kind then Pure.pure absent >>= next else counting >>= next)
      (do if ← Parse.check kind then Pure.pure absent >>= next' else rule >>= next') := by
  refine (check kind).bind fun closed => ?_
  split
  · exact (pure absent).bind h'
  · exact h.bind h'

theorem forInitial (h : Counts levels functions [] expression expression') :
    Counts levels functions [] (forInitial expression) (Parse.forInitial expression') := by
  refine within (accept (by decide) (fun token => ?_) ((expressionStatement h).map some))
  dsimp only
  split
  · exact pure none
  · exact (varDeclaration h).map some

theorem forStatement (h : Counts levels functions [] expression expression')
    (h' : Counts levels functions [] statement statement') :
    Counts levels functions [] (forStatement expression statement)
      (Parse.forStatement expression' statement') :=
  within (expect (by decide) fun _ => (forInitial h).bind fun _ =>
    optional _ _ h fun _ => expect (by decide) fun _ =>
      optional _ _ (h.map some) fun _ => expect (by decide) fun _ => h'.bind fun _ => pure _)

/-- The body is read with one more function body open. -/
theorem functionStatement (h : Counts levels (functions + 1) [] statement statement') :
    Counts levels functions [] (functionStatement statement)
      (Parse.functionStatement statement') :=
  within (expect (by decide) fun _ => expect (by decide) fun _ =>
    (listed (token (by decide)) (by decide)).bind fun _ => expect (by decide) fun _ =>
      expect (by decide) fun _ => (inBody (block h)).bind fun _ => pure _)

/-- The judgement that a return is owed is that of the counter, and the counter is right. -/
theorem judge (keyword : Token) : Counts levels functions [keyword] (judge keyword)
    (if functions = 0 then Parse.record .returnOutsideFunction keyword else Pure.pure ()) := by
  intro r fits
  by_cases outside : functions = 0
  · let e : SyntaxError := .atToken .returnOutsideFunction keyword
    let recorded : Moment := ⟨.records e, r.counters, r.calls, r.cursor.errors ++ [e]⟩
    let judged : Moment :=
      ⟨.judges keyword r.cursor.errors, r.counters, r.calls, r.cursor.errors ++ [e]⟩
    have none : r.calls.count .functionBody = 0 := fits.bodies.trans outside
    have shallow : e.cause ∉ tooDeep := by simp [e, SyntaxError.atToken, tooDeep]
    have recorded_exact : recorded.Exact := fits.exact ⟨shallow, fun _ => none⟩
    have judged_exact : judged.Exact :=
      fits.exact (congrArg (r.cursor.errors ++ ·) (if_pos none).symm)
    have judged_outside : judged.outside = [keyword] := if_pos none
    rw [CountsFrom, Tally.judge, if_pos (fits.functionDepth.trans outside), if_pos outside]
    refine ⟨[recorded, judged], ?_, ?_⟩
    · simp [Reader.record, Reader.log, Reader.arrive, Parse.record, recorded, judged, e]
    · exact {
        exact := List.forall_mem_cons.2 ⟨recorded_exact, List.forall_mem_singleton.2 judged_exact⟩
        taken := rfl
        judged := rfl
        reported := ⟨[e], rfl, List.forall_mem_singleton.2 ⟨_, List.mem_cons_self, .inl rfl⟩⟩
        kept := List.forall_mem_cons.2
          ⟨List.prefix_rfl, List.forall_mem_singleton.2 List.prefix_rfl⟩
        outside := by
          rw [List.flatMap_cons, Moment.outside_eq_nil rfl, List.flatMap_singleton, judged_outside]
          exact List.filter_append _ _ }
  · let judged : Moment :=
      ⟨.judges keyword r.cursor.errors, r.counters, r.calls, r.cursor.errors⟩
    have some : r.calls.count .functionBody ≠ 0 := fits.bodies ▸ outside
    have judged_exact : judged.Exact :=
      fits.exact ((List.append_nil _).symm.trans
        (congrArg (r.cursor.errors ++ ·) (if_neg some).symm))
    have judged_outside : judged.outside = [] := if_neg some
    have inside : r.counters.functionDepth ≠ 0 := fits.functionDepth ▸ outside
    rw [CountsFrom, Tally.judge, if_neg inside, if_neg outside]
    exact ⟨[judged], rfl, {
      exact := List.forall_mem_singleton.2 judged_exact
      taken := rfl
      judged := rfl
      reported := ⟨[], (List.append_nil _).symm, List.forall_mem_nil _⟩
      kept := List.forall_mem_singleton.2 List.prefix_rfl
      outside := by
        rw [List.flatMap_singleton, judged_outside]
        exact (List.append_nil _).symm }⟩

theorem returnStatement (h : Counts levels functions [] expression expression') (keyword : Token) :
    Counts levels functions [keyword] (returnStatement expression keyword)
      (Parse.returnStatement expression' functions keyword) := by
  have parts : Parse.returnStatement expression' functions keyword =
      (if functions = 0 then Parse.record .returnOutsideFunction keyword else Pure.pure ()) >>=
        (fun _ => do
          let value ← if ← Parse.check .semicolon then Pure.pure none else some <$> expression'
          let _ ← Parse.expect .semicolon .semicolonAfterReturnMissing
          Pure.pure (.returns keyword value)) := by
    unfold Parse.returnStatement
    split <;> rfl
  rw [parts]
  exact within ((judge keyword).bind fun _ => optional _ _ (h.map some) fun _ =>
    closed (by decide) _)

/-- A return that has been read is judged, in the rule that alone can have read it. -/
theorem statementBody {statement' : Nat → Parse Stmt}
    (h : ∀ functions, Counts levels functions [] expression expression')
    (h' : ∀ functions, Counts levels functions [] statement (statement' functions)) :
    Counts levels functions [] (statementBody expression statement)
      (Parse.statementBody expression' statement' functions) := by
  refine within (accept? (fun token known => ?_) (expressionStatement (h functions)))
  by_cases returns : token.kind = .kwReturn
  · -- the keyword is owed to the rule for returns, which judges it before it reads on
    rw [List.filter_cons_of_pos (by simpa using returns), List.filter_nil]
    simp only [returns]
    exact returnStatement (h functions) token
  · rw [List.filter_cons_of_neg (by simpa using returns), List.filter_nil]
    dsimp only
    cases hk : token.kind
    case kwPrint => exact printStatement (h functions)
    case leftBrace => exact (block (declaration (h functions) (h' functions))).map _
    case kwIf => exact ifStatement (h functions) (h' functions)
    case kwWhile => exact whileStatement (h functions) (h' functions)
    case kwFor => exact forStatement (h functions) (h' functions)
    case kwFun => exact functionStatement (declaration (h (functions + 1)) (h' (functions + 1)))
    case kwReturn => exact absurd hk returns
    all_goals
      rw [hk] at known
      exact absurd known (by decide)

end

theorem statement : ∀ {fuel levels functions : Nat}, levels < fuel →
    Counts levels functions [] (statement fuel) (Parse.statement levels functions)
  | 0, levels, _, h => absurd h (Nat.not_lt_zero levels)
  | fuel + 1, 0, _, _ => within (failDeep (by decide))
  | fuel + 1, levels + 1, functions, h => by
    have inside (functions : Nat) : Counts levels functions []
        (Tally.expression (Tally.operand fuel)) (Parse.expression levels) :=
      expression fun inner few => operand (by omega)
    exact within (nested (statementBody inside fun functions => statement (by omega)))

theorem program : Counts maxNesting 0 [] program Parse.program := by
  have expressions (functions : Nat) : Counts maxNesting functions []
      (Tally.expression (Tally.operand enough)) (Parse.expression maxNesting) :=
    expression fun _ few => operand (Nat.lt_succ_of_lt few)
  exact many none (declaration (expressions 0) (statement (Nat.lt_succ_self maxNesting)))

end Counts

/-- The counters of the parser are exact on every path.

With counters, parsing comes to the program or the errors that it comes to without
them, and to counters of zero.  At every moment of it, of reading, failing or
returning from a call, `nesting` is the number of levels that are open and at most
`maxNesting`, and `functionDepth` is the number of function bodies that are open; where
a call returns, successful or not, both are what they were when it began (`Moment.Exact`).
An error about nesting is only raised with `maxNesting` levels open.  An error about a
return is recorded where a return is judged, and there exactly if no function body is
open.

Each token before the end is read by a rule or skipped by recovery, in order.  The
returns that a rule reads are the ones that are judged; one that recovery skips is the
token at which the error is that it has recorded.  The errors of the result are the ones
that have been reported on the way; those about returns are, in order, the ones for the
returns that have been judged where no function body is open. -/
theorem counters_exact (tokens : List Token) : ∃ program r,
    parse tokens = (Program.parse tokens, r) ∧
    Program.parse tokens =
      (if r.cursor.errors = [] then .ok program else .error r.cursor.errors) ∧
    r.counters = ⟨0, 0⟩ ∧
    (∀ m ∈ r.trace, m.Exact ∧ m.errors <+: r.cursor.errors) ∧
    r.trace.flatMap Moment.taken = tokens.takeWhile (·.kind ≠ .eof) ∧
    r.trace.flatMap Moment.judged =
      (r.trace.flatMap Moment.read).filter (·.kind = .kwReturn) ∧
    r.cursor.errors.filter (·.cause = .returnOutsideFunction) =
      (r.trace.flatMap Moment.outside).map (.atToken .returnOutsideFunction) ∧
    ∀ e ∈ r.cursor.errors, ∃ m ∈ r.trace, m.Reports e := by
  obtain ⟨program, c, passes, ended⟩ := Program.exists_passes tokens
  have run : Parse.program (.ofTokens tokens) = .ok program c :=
    passes.many (Parse.ended_none_iff.2 ended) (Nat.le_refl _)
  have fits : (Reader.ofTokens tokens).Fits maxNesting 0 := ⟨Nat.zero_add _, rfl, rfl, rfl⟩
  obtain ⟨trace, counted, accounts⟩ := Counts.program _ fits
  have start : (Reader.ofTokens tokens).cursor = .ofTokens tokens := rfl
  rw [start, run] at counted accounts
  have result := Program.parse_of_passes passes ended
  -- the rules have left the counters and the calls as they were in the beginning
  refine ⟨program, ⟨c, ⟨0, 0⟩, [], trace⟩, ?_, result, rfl, ?_, ?_, accounts.judged.symm,
    accounts.outside, ?_⟩
  · rw [parse, counted, result]
    rfl
  · exact fun m member => ⟨accounts.exact m member, accounts.kept m member⟩
  · -- the loop over declarations goes on to the end of the tokens
    have taken := accounts.taken
    rw [ended, List.append_nil] at taken
    exact taken.symm
  · obtain ⟨new, errors, told⟩ := accounts.reported
    intro e he
    rw [errors] at he
    exact told e he

/-- The tokens of `print return;`. -/
def printReturn : List Token :=
  [⟨.kwPrint, "print", none, 1⟩, ⟨.kwReturn, "return", none, 1⟩, ⟨.semicolon, ";", none, 1⟩,
    .endOfFile 1]

/-- A return that recovery skips is not judged: the one of `print return;` is taken
where no function body is open, and the only error in the end is another. -/
theorem return_unjudged :
    (∃ m ∈ (parse printReturn).2.trace, ⟨.kwReturn, "return", none, 1⟩ ∈ m.taken ∧ m.bodies = 0) ∧
    Program.parse printReturn =
      .error [.atToken .expressionMissing ⟨.kwReturn, "return", none, 1⟩] := by
  refine ⟨?_, rfl⟩
  decide +kernel

end Tally

end Scriptlet
