/-
# What errors can say of a text

Two of the causes that the rules can report are there for token lists of another
make: a token that spells a value and has none, and a token that begins a
statement which no rule reads.  Scanning gives every token that spells a value
the value, and the kinds that a statement rule accepts are the ones that it goes
on to tell apart; so neither cause is ever reported of a text, be it in a rule
that fails, as an error on the way, or behind a recovery.  And whatever the cause,
an error is reported at a token of the text, be it one that has been read, the one
that comes next, or the one that stands for the end.  Both are properties of every
error, so one pass through the rules shows both (`Parse.proper_program`).
-/
import Scriptlet.Proofs.Parsing.Reads
import Scriptlet.Proofs.Parsing.Grammar
import Scriptlet.Proofs.Scanning.Spells

namespace Scriptlet

open Grammar

/-- If the token spells a value, it has one. -/
def Token.Valued (t : Token) : Prop := t.kind ∈ literalKinds → t.literal.isSome

/-- The causes that the rules keep for tokens that no text has. -/
def SyntaxError.Cause.internal : List SyntaxError.Cause := [literalMissing, statementUnknown]

/-- The error is reported at one of the tokens, and its cause is not internal. -/
def SyntaxError.Proper (tokens : List Token) (e : SyntaxError) : Prop :=
  e.cause ∉ Cause.internal ∧ ∃ token ∈ tokens, e = .atToken e.cause token

theorem SyntaxError.Proper.atToken {tokens : List Token} {cause : Cause} {token : Token}
    (known : cause ∉ Cause.internal) (member : token ∈ tokens) :
    (SyntaxError.atToken cause token).Proper tokens :=
  ⟨known, token, member, rfl⟩

/-- What is to be read are some of the tokens, which have their values, and every
error so far is proper. -/
structure Cursor.Proper (tokens : List Token) (c : Cursor) : Prop where
  rest : ∀ t ∈ c.rest, t ∈ tokens
  ends : .endOfFile c.endLine ∈ tokens
  valued : ∀ t ∈ tokens, t.Valued
  errors : ∀ e ∈ c.errors, e.Proper tokens

namespace Cursor.Proper

variable {tokens : List Token} {c : Cursor}

theorem current (h : c.Proper tokens) : c.current ∈ tokens := by
  unfold Cursor.current
  cases hrest : c.rest with
  | nil => exact h.ends
  | cons token tail =>
      refine h.rest token ?_
      rw [hrest]
      exact List.mem_cons_self

theorem skip (h : c.Proper tokens) {rest : List Token} (shorter : rest <:+ c.rest) :
    (c.facing rest).Proper tokens :=
  { h with rest := fun t member => h.rest t (shorter.mem member) }

theorem report (h : c.Proper tokens) {e : SyntaxError} (he : e.Proper tokens) :
    Cursor.Proper tokens { c with errors := c.errors ++ [e] } :=
  { h with errors := List.forall_mem_append.2 ⟨h.errors, List.forall_mem_singleton.2 he⟩ }

end Cursor.Proper

namespace Parse

/-- Successful or not, the rule has left a proper cursor, and its error is proper. -/
def Ends {α : Type} (tokens : List Token) : EStateM.Result SyntaxError Cursor α → Prop
  | .ok _ c => c.Proper tokens
  | .error e c => c.Proper tokens ∧ e.Proper tokens

/-- From proper cursors the rule comes to proper ends. -/
def Proper {α : Type} (tokens : List Token) (rule : Parse α) : Prop :=
  ∀ c : Cursor, c.Proper tokens → Ends tokens (rule c)

namespace Proper

variable {tokens : List Token} {α β : Type} {rule : Parse α}

/-! ## Steps -/

theorem pure (a : α) : Proper tokens (Pure.pure a : Parse α) := fun _ hc => hc

theorem fail {cause : SyntaxError.Cause} (h : cause ∉ SyntaxError.Cause.internal) :
    Proper tokens (fail cause : Parse α) :=
  fun _ hc => ⟨hc, .atToken h hc.current⟩

theorem record {cause : SyntaxError.Cause} (h : cause ∉ SyntaxError.Cause.internal)
    {token : Token} (member : token ∈ tokens) : Proper tokens (record cause token) :=
  fun _ hc => hc.report (.atToken h member)

theorem bind (h : Proper tokens rule) {next : α → Parse β} (h' : ∀ a, Proper tokens (next a)) :
    Proper tokens (rule >>= next) := by
  intro c hc
  have first := h c hc
  rw [bind_apply]
  cases run : rule c with
  | ok a c' =>
      rw [run] at first
      exact h' a c' first
  | error e c' =>
      rw [run] at first
      exact first

theorem map (h : Proper tokens rule) (f : α → β) : Proper tokens (f <$> rule) := h.bind fun a => pure (f a)

theorem check (kind : Token.Kind) : Proper tokens (check kind) := fun _ hc => hc

theorem next : Proper tokens next := fun c hc => hc.skip (List.tail_suffix c.rest)

/-- What depends on the next token may rely on its value. -/
theorem current {next : Token → Parse α}
    (h : ∀ token ∈ tokens, token.Valued → Proper tokens (next token)) : Proper tokens (current >>= next) :=
  fun c hc => h c.current hc.current (hc.valued _ hc.current) c hc

/-- What depends on an accepted token may rely on its kind. -/
theorem accept? {wanted : List Token.Kind} {next : Option Token → Parse α}
    (h : ∀ token ∈ tokens, token.kind ∈ wanted → Proper tokens (next (some token)))
    (h' : Proper tokens (next none)) : Proper tokens (accept? wanted >>= next) := by
  intro c hc
  rw [bind_apply]
  unfold Parse.accept?
  cases hrest : c.rest with
  | nil => exact h' c hc
  | cons token tail =>
      by_cases known : token.kind ∈ wanted
      · simp only [if_pos known]
        have member : token ∈ tokens := hc.rest token (hrest ▸ List.mem_cons_self)
        exact h token member known _ (hc.skip (hrest ▸ List.suffix_cons token tail))
      · simp only [if_neg known]
        exact h' c hc

theorem expect (kind : Token.Kind) {cause : SyntaxError.Cause}
    (h : cause ∉ SyntaxError.Cause.internal) : Proper tokens (expect kind cause) :=
  accept? (fun token _ _ => pure token) (fail h)

/-! ## Loops -/

theorem chain (wanted : List Token.Kind) {step : α → Token → Parse α}
    (h : ∀ a token, Proper tokens (step a token)) (a : α) : Proper tokens (chain wanted step a) := by
  suffices ∀ rounds a, Proper tokens (chainWithin wanted step rounds a) from
    fun c hc => this c.size a c hc
  intro rounds
  induction rounds with
  | zero => exact fun a => pure a
  | succ rounds ih => exact fun a => accept? (fun token _ _ => (h a token).bind ih) (pure a)

/-- A recovery reports the error of the rule and skips tokens. -/
theorem recovering (h : Proper tokens rule) : Proper tokens (recovering rule) := by
  intro c hc
  have first := h c hc
  unfold Parse.recovering
  cases run : rule c with
  | ok a c' =>
      rw [run] at first
      exact first
  | error e c' =>
      rw [run] at first
      exact (first.1.skip (synchronize_suffix c'.rest)).report first.2

theorem many (closing : Option Token.Kind) (h : Proper tokens rule) : Proper tokens (many closing rule) := by
  suffices ∀ rounds, Proper tokens (manyWithin closing rule rounds) from fun c hc => this c.size c hc
  intro rounds
  induction rounds with
  | zero => exact pure []
  | succ rounds ih =>
      intro c hc
      unfold manyWithin
      split
      · exact hc
      · split
        · exact hc
        · exact (h.recovering.bind fun _ => ih.bind fun _ => pure _) c hc

theorem listed {item : Parse α} (h : Proper tokens item) {tooMany : SyntaxError.Cause}
    (htoo : tooMany ∉ SyntaxError.Cause.internal) : Proper tokens (listed item tooMany) := by
  have separated : Proper tokens (separated item tooMany) := by
    refine h.bind fun first => chain _ (fun items _ => ?_) _
    dsimp only
    split
    · exact current fun _ member _ => (record htoo member).bind fun _ => h.bind fun _ => pure _
    · exact h.bind fun _ => pure _
  refine (check .rightParen).bind fun closed => ?_
  split
  · exact pure []
  · exact separated

/-! ## Expressions -/

section

variable {expression operand : Parse Expr}

theorem primary (h : Proper tokens expression) : Proper tokens (primary expression) := by
  refine current fun token _ valued => ?_
  unfold Token.Valued at valued
  split
  case h_6 => exact next.bind fun _ => pure _
  case h_7 => exact next.bind fun _ => h.bind fun _ => (expect _ (by decide)).bind fun _ => pure _
  case h_8 => exact fail (by decide)
  all_goals
    -- a token that spells a value has one
    rename_i hk
    rw [hk] at valued
    obtain ⟨value, has⟩ := Option.isSome_iff_exists.1 (valued (by decide))
    rw [has]
    exact next.bind fun _ => pure _

theorem call (h : Proper tokens expression) : Proper tokens (call expression) :=
  (primary h).bind fun _ => chain _ (fun _ _ =>
    (listed h (by decide)).bind fun _ => (expect _ (by decide)).bind fun _ => pure _) _

theorem prefixed (h : Proper tokens operand) (h' : Proper tokens expression) :
    Proper tokens (prefixed operand expression) :=
  accept? (fun _ _ _ => h.bind fun _ => pure _) (call h')

theorem infixed (h : Proper tokens operand) : ∀ levels, Proper tokens (infixed operand levels)
  | [] => h
  | _ :: tighter => (infixed h tighter).bind fun _ =>
      chain _ (fun _ _ => (infixed h tighter).bind fun _ => pure _) _

theorem assignment (h : Proper tokens operand) : Proper tokens (assignment operand) := by
  suffices ∀ rounds, Proper tokens (assignmentWithin operand rounds) from fun c hc => this c.size c hc
  intro rounds
  induction rounds with
  | zero => exact infixed h _
  | succ rounds ih =>
      refine (infixed h _).bind fun target => accept? (fun equals member _ => ?_) (pure target)
      refine ih.bind fun value => ?_
      split
      · exact pure _
      · exact (record (by decide) member).bind fun _ => pure target

end

theorem operand : ∀ levels, Proper tokens (operand levels)
  | 0 => prefixed (fail (by decide)) (fail (by decide))
  | levels + 1 => prefixed (operand levels) (assignment (operand levels))

theorem expression : ∀ levels, Proper tokens (expression levels)
  | 0 => fail (by decide)
  | levels + 1 => assignment (operand levels)

/-! ## Statements -/

section

variable {expression : Parse Expr} {statement : Parse Stmt}

/-- A rule for one more token and what is made then. -/
theorem closed (kind : Token.Kind) {cause : SyntaxError.Cause}
    (h : cause ∉ SyntaxError.Cause.internal) (a : α) :
    Proper tokens (do let _ ← Parse.expect kind cause; Pure.pure a) :=
  (expect kind h).bind fun _ => pure a

theorem varDeclaration (h : Proper tokens expression) : Proper tokens (varDeclaration expression) :=
  (expect _ (by decide)).bind fun _ => accept?
    (fun _ _ _ => h.bind fun _ => closed _ (by decide) _)
    ((pure _).bind fun _ => closed _ (by decide) _)

theorem declaration (h : Proper tokens expression) (h' : Proper tokens statement) :
    Proper tokens (declaration expression statement) :=
  accept? (fun _ _ _ => varDeclaration h) h'

theorem block (h : Proper tokens statement) : Proper tokens (block statement) :=
  (many _ h).bind fun _ => closed _ (by decide) _

theorem printStatement (h : Proper tokens expression) : Proper tokens (printStatement expression) :=
  h.bind fun _ => closed _ (by decide) _

theorem expressionStatement (h : Proper tokens expression) : Proper tokens (expressionStatement expression) :=
  h.bind fun _ => closed _ (by decide) _

theorem ifStatement (h : Proper tokens expression) (h' : Proper tokens statement) :
    Proper tokens (ifStatement expression statement) :=
  (expect _ (by decide)).bind fun _ => h.bind fun _ => (expect _ (by decide)).bind fun _ =>
    h'.bind fun _ => accept? (fun _ _ _ => h'.bind fun _ => pure _) (pure _)

theorem whileStatement (h : Proper tokens expression) (h' : Proper tokens statement) :
    Proper tokens (whileStatement expression statement) :=
  (expect _ (by decide)).bind fun _ => h.bind fun _ => (expect _ (by decide)).bind fun _ =>
    h'.bind fun _ => pure _

/-- What may be left out when the given kind comes next, and the rule after it. -/
theorem optional (kind : Token.Kind) (absent : α) (h : Proper tokens rule) {next : α → Parse β}
    (h' : ∀ a, Proper tokens (next a)) :
    Proper tokens (do if ← Parse.check kind then Pure.pure absent >>= next else rule >>= next) := by
  refine (check kind).bind fun closed => ?_
  split
  · exact (pure absent).bind h'
  · exact h.bind h'

theorem forInitial (h : Proper tokens expression) : Proper tokens (forInitial expression) := by
  refine accept? (fun token _ _ => ?_) ((expressionStatement h).map some)
  dsimp only
  split
  · exact pure none
  · exact (varDeclaration h).map some

theorem forStatement (h : Proper tokens expression) (h' : Proper tokens statement) :
    Proper tokens (forStatement expression statement) :=
  (expect _ (by decide)).bind fun _ => (forInitial h).bind fun _ =>
    optional _ _ h fun _ => (expect _ (by decide)).bind fun _ =>
      optional _ _ (h.map some) fun _ => (expect _ (by decide)).bind fun _ =>
        h'.bind fun _ => pure _

theorem functionStatement (h : Proper tokens statement) : Proper tokens (functionStatement statement) :=
  (expect _ (by decide)).bind fun _ => (expect _ (by decide)).bind fun _ =>
    (listed (expect _ (by decide)) (by decide)).bind fun _ => (expect _ (by decide)).bind fun _ =>
      (expect _ (by decide)).bind fun _ => (block h).bind fun _ => pure _

theorem returnStatement (h : Proper tokens expression) (functions : Nat) {keyword : Token}
    (member : keyword ∈ tokens) : Proper tokens (returnStatement expression functions keyword) := by
  have rest : Proper tokens (do
      let value ← if ← Parse.check .semicolon then Pure.pure none else some <$> expression
      let _ ← Parse.expect .semicolon .semicolonAfterReturnMissing
      Pure.pure (.returns keyword value) : Parse Stmt) :=
    optional _ _ (h.map some) fun _ => closed _ (by decide) _
  unfold Parse.returnStatement
  split
  · exact (record (by decide) member).bind fun _ => rest
  · exact rest

end

/-- A kind that the rule accepts is one that it tells apart. -/
theorem statementBody {expression : Parse Expr} {statement : Nat → Parse Stmt}
    (h : Proper tokens expression) (h' : ∀ functions, Proper tokens (statement functions)) (functions : Nat) :
    Proper tokens (statementBody expression statement functions) := by
  refine accept? (fun token member known => ?_) (expressionStatement h)
  dsimp only
  split
  case h_1 => exact printStatement h
  case h_2 => exact (block (declaration h (h' functions))).map _
  case h_3 => exact ifStatement h (h' functions)
  case h_4 => exact whileStatement h (h' functions)
  case h_5 => exact forStatement h (h' functions)
  case h_6 => exact functionStatement (declaration h (h' (functions + 1)))
  case h_7 => exact returnStatement h functions member
  case h_8 => simp_all [statementKinds]

theorem statement : ∀ levels functions, Proper tokens (statement levels functions)
  | 0, _ => fail (by decide)
  | levels + 1, functions => statementBody (expression levels) (statement levels) functions

end Proper

theorem proper_program : Proper tokens program :=
  .many _ (.declaration (.expression _) (.statement _ _))

end Parse

/-! ## Texts -/

/-- Scanning gives every token that spells a value the value. -/
theorem Token.Genuine.valued {t : Token} (h : t.Genuine) : t.Valued := by
  intro value
  have real : t.kind ≠ .eof := by
    intro eof
    rw [eof] at value
    exact absurd value (by decide)
  obtain ⟨c, tail, before, -, same⟩ := h.first real
  rw [← t.unlined_literal, same]
  show (Token.literalOf? t.kind (c :: tail)).isSome
  simp only [literalKinds, List.mem_cons, List.not_mem_nil, or_false] at value
  rcases value with hk | hk | hk | hk | hk <;> rw [hk] <;> rfl

/-- Every error of a text is at one of its tokens and has no internal cause. -/
theorem Program.parse_proper {source : String} {tokens : List Token} {errors : List SyntaxError}
    (scans : Token.scan source = .ok tokens) (fails : Program.parse tokens = .error errors) :
    ∀ e ∈ errors, e.Proper tokens := by
  have start : (Cursor.ofTokens tokens).Proper tokens := by
    refine ⟨fun t member => (List.takeWhile_prefix _).mem member, ?_, fun t member => ?_,
      List.forall_mem_nil _⟩
    · obtain ⟨front, line, rfl, real⟩ := Token.scan_ends scans
      have none : front.find? (·.kind = .eof) = none :=
        List.find?_eq_none.2 fun t member => by simpa using real t member
      have closed : (Cursor.ofTokens (front ++ [.endOfFile line])).endLine = line := by
        show Cursor.endLineOf (front ++ [.endOfFile line]) = line
        rw [Cursor.endLineOf, List.find?_append, none]
        rfl
      rw [closed]
      exact List.mem_append_right _ List.mem_cons_self
    · exact Token.Genuine.valued ⟨source, tokens, scans, t, member, rfl⟩
  have ends := Parse.proper_program _ start
  unfold Program.parse at fails
  cases run : Parse.program (Cursor.ofTokens tokens) with
  | ok statements c =>
      rw [run] at ends fails
      dsimp only at fails
      split at fails
      · cases fails
      · cases fails
        exact ends.errors
  | error e c =>
      rw [run] at ends fails
      cases fails
      exact (ends.1.report ends.2).errors

end Scriptlet
