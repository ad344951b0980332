/-
# The statement rules read the statement grammar

A statement rule has a clean run exactly on the tokens of a statement, with one
thing asked of what follows: no `else`, if the statement is dangling.  The rule
would have read an `else` there, as the other branch of its last `if`.

The first token says which production a statement comes from.  That is how the
rule goes about it, and `StatementClause` says the same of the grammar; what is
left is to compare the two, clause by clause.
-/
import Scriptlet.Proofs.Parsing.Expression

namespace Scriptlet

open Grammar

namespace Grammar

variable {levels : Nat} {inFunction dangling : Bool}

/-- What stands behind the first token of a statement, by the kind of that
token. -/
def StatementClause (levels : Nat) (inFunction dangling : Bool) (token : Token)
    (used : List Token) (s : Stmt) : Prop :=
  match token.kind with
  | .kwPrint => dangling = false ∧ ∃ tokens semicolon e, used = tokens ++ [semicolon] ∧
      Derives levels .expression tokens e ∧ semicolon.kind = .semicolon ∧ s = .print e
  | .leftBrace => dangling = false ∧ ∃ (declarations : List (List Token × Stmt)) (closing : Token),
      used = declarations.flatMap (·.1) ++ [closing] ∧
      (∀ d ∈ declarations, DerivesStmt levels inFunction .declaration d.1 d.2) ∧
      closing.kind = .rightBrace ∧ s = .block (declarations.map (·.2))
  | .kwIf => ∃ opening tokens condition closing tokens' thenBranch inner,
      opening.kind = .leftParen ∧ Derives levels .expression tokens condition ∧
      closing.kind = .rightParen ∧
      DerivesStmt levels inFunction (.statement inner) tokens' thenBranch ∧
      ((dangling = true ∧ used = opening :: tokens ++ closing :: tokens' ∧
          s = .ifThen condition thenBranch) ∨
        (inner = false ∧ ∃ elseToken tokens'' elseBranch,
          used = opening :: tokens ++ closing :: tokens' ++ elseToken :: tokens'' ∧
          elseToken.kind = .kwElse ∧
          DerivesStmt levels inFunction (.statement dangling) tokens'' elseBranch ∧
          s = .ifElse condition thenBranch elseBranch))
  | .kwWhile => ∃ opening tokens condition closing tokens' body,
      used = opening :: tokens ++ closing :: tokens' ∧ opening.kind = .leftParen ∧
      Derives levels .expression tokens condition ∧ closing.kind = .rightParen ∧
      DerivesStmt levels inFunction (.statement dangling) tokens' body ∧
      s = .whileLoop condition body
  | .kwFor => ∃ opening first initial second condition semicolon third increment closing tokens
        body, used = opening :: first ++ second ++ semicolon :: third ++ closing :: tokens ∧
      opening.kind = .leftParen ∧ ForInitial levels first initial ∧
      OptExpression levels second condition ∧ semicolon.kind = .semicolon ∧
      OptExpression levels third increment ∧ closing.kind = .rightParen ∧
      DerivesStmt levels inFunction (.statement dangling) tokens body ∧
      s = loopTree initial (condition.getD (.literal (.boolean true))) increment body
  | .kwFun => dangling = false ∧ ∃ (name opening : Token) (params inner : List Token)
        (closing bodyOpening : Token) (declarations : List (List Token × Stmt))
        (bodyClosing : Token),
      used = name :: opening :: inner ++
        closing :: bodyOpening :: declarations.flatMap (·.1) ++ [bodyClosing] ∧
      name.kind = .identifier ∧ opening.kind = .leftParen ∧
      (∀ param ∈ params, param.kind = .identifier) ∧ Separated (params.map ([·])) inner ∧
      params.length ≤ 255 ∧ closing.kind = .rightParen ∧ bodyOpening.kind = .leftBrace ∧
      (∀ d ∈ declarations, DerivesStmt levels true .declaration d.1 d.2) ∧
      bodyClosing.kind = .rightBrace ∧ s = .function name params (declarations.map (·.2))
  | .kwReturn => dangling = false ∧ inFunction = true ∧ ∃ tokens semicolon value,
      used = tokens ++ [semicolon] ∧ OptExpression levels tokens value ∧
      semicolon.kind = .semicolon ∧ s = .returns token value
  | _ => dangling = false ∧ ExprStmt levels (token :: used) s

theorem StatementClause.ofDerives {token : Token} {used : List Token} {s : Stmt}
    (h : DerivesStmt (levels + 1) inFunction (.statement dangling) (token :: used) s) :
    StatementClause levels inFunction dangling token used s := by
  unfold StatementClause
  generalize ht : token :: used = tokens at h
  cases h with
  | expression clause =>
      subst ht
      have starts : token.kind ∈ Symbol.starters .expression := by
        generalize ht : token :: used = tokens at clause
        cases clause with
        | intro derived _ =>
            obtain ⟨first, others, rfl, hk⟩ := derived.starts
            cases ht
            exact hk
      split
      case h_8 => exact ⟨rfl, clause⟩
      all_goals
        rename_i hk
        rw [hk] at starts
        exact absurd starts (by decide)
  | print hk derived hk' =>
      cases ht
      rw [hk]
      exact ⟨rfl, _, _, _, rfl, derived, hk', rfl⟩
  | block hk each hk' =>
      cases ht
      rw [hk]
      exact ⟨rfl, _, _, rfl, each, hk', rfl⟩
  | ifThen hk opening derived closing thenBranch =>
      cases ht
      rw [hk]
      exact ⟨_, _, _, _, _, _, _, opening, derived, closing, thenBranch, .inl ⟨rfl, rfl, rfl⟩⟩
  | ifElse hk opening derived closing thenBranch other elseBranch =>
      cases ht
      rw [hk]
      exact ⟨_, _, _, _, _, _, _, opening, derived, closing, thenBranch,
        .inr ⟨rfl, _, _, _, rfl, other, elseBranch, rfl⟩⟩
  | whileLoop hk opening derived closing body =>
      cases ht
      rw [hk]
      exact ⟨_, _, _, _, _, _, rfl, opening, derived, closing, body, rfl⟩
  | forLoop hk opening initial condition semicolon increment closing body =>
      cases ht
      rw [hk]
      exact ⟨_, _, _, _, _, _, _, _, _, _, _, rfl, opening, initial, condition, semicolon,
        increment, closing, body, rfl⟩
  | function hk name opening params separated bound closing bodyOpening each bodyClosing =>
      cases ht
      rw [hk]
      exact ⟨rfl, _, _, _, _, _, _, _, _, rfl, name, opening, params, separated, bound, closing,
        bodyOpening, each, bodyClosing, rfl⟩
  | returns hk value semicolon =>
      cases ht
      rw [hk]
      exact ⟨rfl, rfl, _, _, _, rfl, value, semicolon, rfl⟩

theorem StatementClause.derives {token : Token} {used : List Token} {s : Stmt}
    (h : StatementClause levels inFunction dangling token used s) :
    DerivesStmt (levels + 1) inFunction (.statement dangling) (token :: used) s := by
  unfold StatementClause at h
  split at h
  case h_1 hk =>
      obtain ⟨rfl, _, _, _, rfl, derived, hk', rfl⟩ := h
      exact .print hk derived hk'
  case h_2 hk =>
      obtain ⟨rfl, _, _, rfl, each, hk', rfl⟩ := h
      exact .block hk each hk'
  case h_3 hk =>
      obtain ⟨_, _, _, _, _, _, inner, opening, derived, closing, thenBranch, branches⟩ := h
      rcases branches with ⟨rfl, rfl, rfl⟩ | ⟨rfl, _, _, _, rfl, other, elseBranch, rfl⟩
      · exact .ifThen hk opening derived closing thenBranch
      · exact .ifElse hk opening derived closing thenBranch other elseBranch
  case h_4 hk =>
      obtain ⟨_, _, _, _, _, _, rfl, opening, derived, closing, body, rfl⟩ := h
      exact .whileLoop hk opening derived closing body
  case h_5 hk =>
      obtain ⟨_, _, _, _, _, _, _, _, _, _, _, rfl, opening, initial, condition, semicolon,
        increment, closing, body, rfl⟩ := h
      exact .forLoop hk opening initial condition semicolon increment closing body
  case h_6 hk =>
      obtain ⟨rfl, _, _, _, _, _, _, _, _, rfl, name, opening, params, separated, bound, closing,
        bodyOpening, each, bodyClosing, rfl⟩ := h
      exact .function hk name opening params separated bound closing bodyOpening each bodyClosing
  case h_7 hk =>
      obtain ⟨rfl, rfl, _, _, _, rfl, value, semicolon, rfl⟩ := h
      exact .returns hk value semicolon
  case h_8 =>
      obtain ⟨rfl, clause⟩ := h
      exact .expression clause

/-- Kinds of token that begin no text of a form. -/
def Form.strangers : Form → List Token.Kind
  | .declaration => [.kwElse, .rightBrace]
  | .statement _ => [.kwElse, .rightBrace] ++ [.kwVar]

/-- The text of a declaration is not empty, and begins neither with `else` nor
with what closes a block. -/
theorem DerivesStmt.starts {form : Form} {tokens : List Token} {s : Stmt}
    (h : DerivesStmt levels inFunction form tokens s) :
    ∃ token tail, tokens = token :: tail ∧ token.kind ∉ form.strangers := by
  induction h with
  | var clause =>
      cases clause with
      | plain hk | initialized hk => exact ⟨_, _, rfl, by rw [hk]; decide⟩
  | statement _ ih =>
      obtain ⟨token, tail, rfl, hk⟩ := ih
      exact ⟨token, tail, rfl, fun here => hk (List.mem_append_left _ here)⟩
  | expression clause =>
      cases clause with
      | intro derived _ =>
          obtain ⟨token, tail, rfl, hk⟩ := derived.starts
          have disjoint : ∀ kind ∈ Symbol.starters .expression,
              kind ∉ Form.strangers (.statement false) := by decide
          exact ⟨token, _, rfl, disjoint _ hk⟩
  | print hk | block hk | ifThen hk | ifElse hk | whileLoop hk | forLoop hk | function hk
  | returns hk => exact ⟨_, _, rfl, by rw [hk]; simp [Form.strangers]⟩

end Grammar

namespace Parse

variable {levels : Nat} {inFunction : Bool}

/-- What a statement rule reads. -/
def StatementReading (levels : Nat) (inFunction : Bool) : Reading Stmt := fun tokens s rest =>
  ∃ used dangling, tokens = used ++ rest ∧
    DerivesStmt levels inFunction (.statement dangling) used s ∧
    (dangling = true → Stops [.kwElse] rest)

/-- What a declaration rule reads. -/
def DeclarationReading (levels : Nat) (inFunction : Bool) : Reading Stmt := fun tokens s rest =>
  (∃ used, tokens = used ++ rest ∧ VarDecl levels used s) ∨
    StatementReading levels inFunction tokens s rest

/-- What the rule for a block reads, from behind the opening brace. -/
def BlockReading (levels : Nat) (inFunction : Bool) : Reading (List Stmt) :=
  fun tokens statements rest => ∃ (declarations : List (List Token × Stmt)) (closing : Token),
    tokens = declarations.flatMap (·.1) ++ closing :: rest ∧
    (∀ d ∈ declarations, DerivesStmt levels inFunction .declaration d.1 d.2) ∧
    closing.kind = .rightBrace ∧ statements = declarations.map (·.2)

/-- What is read behind the first token of a statement. -/
def ClauseReading (levels : Nat) (inFunction : Bool) (token : Token) : Reading Stmt :=
  fun tokens s rest => ∃ used dangling, tokens = used ++ rest ∧
    StatementClause levels inFunction dangling token used s ∧
    (dangling = true → Stops [.kwElse] rest)

theorem clauseReading_iff {token : Token} {tokens rest : List Token} {s : Stmt} :
    ClauseReading levels inFunction token tokens s rest ↔
      StatementReading (levels + 1) inFunction (token :: tokens) s rest := by
  constructor
  · rintro ⟨used, dangling, rfl, clause, stops⟩
    exact ⟨token :: used, dangling, rfl, clause.derives, stops⟩
  · rintro ⟨used, dangling, same, derived, stops⟩
    obtain ⟨first, others, rfl, -⟩ := derived.starts
    cases same
    exact ⟨others, dangling, rfl, .ofDerives derived, stops⟩

/-! ## Declarations one after another -/

theorem DeclarationReading.progress {tokens rest : List Token} {s : Stmt}
    (h : DeclarationReading levels inFunction tokens s rest) : rest.length < tokens.length := by
  have longer : ∀ {form used}, DerivesStmt levels inFunction form used s →
      rest.length < (used ++ rest).length := by
    intro form used derived
    obtain ⟨token, tail, rfl, -⟩ := derived.starts
    rw [List.length_append, List.length_cons]
    omega
  rcases h with ⟨used, rfl, clause⟩ | ⟨used, dangling, rfl, derived, -⟩
  · exact longer (.var clause)
  · exact longer derived

/-- Repeated declarations are a list of declarations. -/
theorem Repeated.declarations {closing : Option Token.Kind} {tokens rest : List Token}
    {statements : List Stmt}
    (h : Repeated closing (DeclarationReading levels inFunction) tokens statements rest) :
    ∃ declarations : List (List Token × Stmt), tokens = declarations.flatMap (·.1) ++ rest ∧
      (∀ d ∈ declarations, DerivesStmt levels inFunction .declaration d.1 d.2) ∧
      statements = declarations.map (·.2) ∧ ∀ token ∈ rest.head?, closing = some token.kind := by
  induction h with
  | done closed => exact ⟨[], rfl, by simp, rfl, closed⟩
  | @more s _ _ _ _ _ _ one _ ih =>
      obtain ⟨declarations, rfl, each, rfl, closed⟩ := ih
      rcases one with ⟨used, same, clause⟩ | ⟨used, dangling, same, derived, -⟩
      · exact ⟨(used, s) :: declarations, by simp [same],
          List.forall_mem_cons.2 ⟨.var clause, each⟩, rfl, closed⟩
      · exact ⟨(used, s) :: declarations, by simp [same],
          List.forall_mem_cons.2 ⟨.statement derived, each⟩, rfl, closed⟩

/-- A declaration is read up to whatever follows it, unless that is an `else`. -/
theorem DeclarationReading.ofDerives {used rest : List Token} {s : Stmt}
    (h : DerivesStmt levels inFunction .declaration used s) (follow : Stops [.kwElse] rest) :
    DeclarationReading levels inFunction (used ++ rest) s rest := by
  cases h with
  | var clause => exact .inl ⟨used, rfl, clause⟩
  | statement derived => exact .inr ⟨used, _, rfl, derived, fun _ => follow⟩

/-- No declaration starts with an `else`. -/
theorem stops_declarations {rest : List Token} (follow : Stops [.kwElse] rest)
    {declarations : List (List Token × Stmt)}
    (each : ∀ d ∈ declarations, DerivesStmt levels inFunction .declaration d.1 d.2) :
    Stops [.kwElse] (declarations.flatMap (·.1) ++ rest) := by
  cases declarations with
  | nil => exact follow
  | cons d declarations =>
      obtain ⟨token, tail, same, hk⟩ := (each d List.mem_cons_self).starts
      rw [List.flatMap_cons, same, List.cons_append, List.cons_append, stops_cons]
      exact fun other => hk (List.mem_append_left _ other)

/-- A list of declarations is read by repetition. -/
theorem Repeated.ofDeclarations {closing : Option Token.Kind} {rest : List Token}
    (hclosing : ∀ kind, closing = some kind → kind = .rightBrace)
    (closed : ∀ token ∈ rest.head?, closing = some token.kind) :
    ∀ declarations : List (List Token × Stmt),
      (∀ d ∈ declarations, DerivesStmt levels inFunction .declaration d.1 d.2) →
      Repeated closing (DeclarationReading levels inFunction)
        (declarations.flatMap (·.1) ++ rest) (declarations.map (·.2)) rest := by
  intro declarations
  induction declarations with
  | nil => exact fun _ => .done closed
  | cons d declarations ih =>
      intro each
      have each' := List.forall_mem_cons.1 each
      have follow : Stops [.kwElse] rest := by
        intro token head other
        rw [hclosing _ (closed token head)] at other
        exact absurd other (by decide)
      obtain ⟨token, tail, same, hk⟩ := each'.1.starts
      have one := DeclarationReading.ofDerives each'.1 (stops_declarations follow each'.2)
      rw [same] at one
      have open' : closing ≠ some token.kind := by
        intro here
        rw [hclosing _ here] at hk
        exact hk (by decide)
      simpa [same] using Repeated.more open' one (ih each'.2)

namespace Reads

section

variable {expression : Parse Expr} {statement : Parse Stmt}

/-! ## Clauses -/

theorem varDeclaration (h : Reads expression (Greedy levels .expression)) {var : Token}
    (hk : var.kind = .kwVar) :
    Reads (varDeclaration expression) fun tokens s rest =>
      ∃ used, tokens = used ++ rest ∧ VarDecl levels (var :: used) s := by
  have closing : ∀ (name : Token) (initial : Expr), Reads (do
      let _ ← Parse.expect .semicolon .semicolonAfterVariableMissing
      Pure.pure (.var name initial) : Parse Stmt) fun tokens s rest => ∃ semicolon,
        tokens = semicolon :: rest ∧ semicolon.kind = .semicolon ∧ s = .var name initial := by
    refine fun name initial => ((expect _ _).bind fun _ => .pure _).congr
      fun tokens s rest => ⟨?_, ?_⟩
    · rintro ⟨semicolon, _, ⟨rfl, hk'⟩, rfl, rfl⟩
      exact ⟨semicolon, rfl, hk', rfl⟩
    · rintro ⟨semicolon, rfl, hk', rfl⟩
      exact ⟨semicolon, rest, ⟨rfl, hk'⟩, rfl, rfl⟩
  refine ((expect .identifier _).bind fun name => accept? [.equal]
    (fun _ _ => h.bind (closing name)) ((Reads.pure _).bind (closing name))).congr
    fun tokens s rest => ⟨?_, ?_⟩
  · rintro ⟨name, _, ⟨rfl, hname⟩, ⟨equals, _, rfl, hequals, e, _, ⟨used, rfl, derived, -⟩,
        semicolon, rfl, hsemicolon, rfl⟩ | ⟨-, _, _, ⟨rfl, rfl⟩, semicolon, rfl, hsemicolon, rfl⟩⟩
    · exact ⟨name :: equals :: used ++ [semicolon], by simp,
        .initialized hk hname (List.mem_singleton.1 hequals) derived hsemicolon⟩
    · exact ⟨[name, semicolon], rfl, .plain hk hname hsemicolon⟩
  · rintro ⟨used, rfl, clause⟩
    cases clause with
    | @plain _ name semicolon _ hname hsemicolon =>
        refine ⟨name, semicolon :: rest, ⟨rfl, hname⟩, .inr ⟨?_, _, _, ⟨rfl, rfl⟩, semicolon, rfl,
          hsemicolon, rfl⟩⟩
        rw [stops_cons, hsemicolon]
        decide
    | @initialized _ name equals semicolon tokens e _ hname hequals derived hsemicolon =>
        refine ⟨name, _, ⟨rfl, hname⟩, .inl ⟨equals, _, rfl, List.mem_singleton.2 hequals, e,
          semicolon :: rest, ⟨tokens, by simp, derived, ?_⟩, semicolon, rfl, hsemicolon, rfl⟩⟩
        rw [stops_cons, hsemicolon]
        decide

/-- An expression and the semicolon that ends it. -/
theorem terminated (h : Reads expression (Greedy levels .expression))
    (cause : SyntaxError.Cause) (node : Expr → Stmt) :
    Reads (do
        let value ← expression
        let _ ← Parse.expect .semicolon cause
        Pure.pure (node value)) fun tokens s rest => ∃ used semicolon e,
      tokens = used ++ semicolon :: rest ∧ Derives levels .expression used e ∧
        semicolon.kind = .semicolon ∧ s = node e := by
  refine (h.bind fun e => (expect _ _).bind fun _ => .pure _).congr fun tokens s rest => ⟨?_, ?_⟩
  · rintro ⟨e, _, ⟨used, rfl, derived, -⟩, semicolon, _, ⟨rfl, hk⟩, rfl, rfl⟩
    exact ⟨used, semicolon, e, rfl, derived, hk, rfl⟩
  · rintro ⟨used, semicolon, e, rfl, derived, hk, rfl⟩
    refine ⟨e, semicolon :: rest, ⟨used, rfl, derived, ?_⟩, semicolon, rest, ⟨rfl, hk⟩, rfl, rfl⟩
    rw [stops_cons, hk]
    decide

theorem declaration (h : Reads expression (Greedy levels .expression))
    (h' : Reads statement (StatementReading levels inFunction)) :
    Reads (declaration expression statement) (DeclarationReading levels inFunction) := by
  refine (accept? [.kwVar] (fun var hk => varDeclaration h (List.mem_singleton.1 hk)) h').congr
    fun tokens s rest => ⟨?_, ?_⟩
  · rintro (⟨var, _, rfl, -, used, rfl, clause⟩ | ⟨-, read⟩)
    · exact .inl ⟨var :: used, rfl, clause⟩
    · exact .inr read
  · rintro (⟨used, rfl, clause⟩ | read)
    · have starts : ∃ var tail, used = var :: tail ∧ var.kind = .kwVar := by
        cases clause with
        | plain hk | initialized hk => exact ⟨_, _, rfl, hk⟩
      obtain ⟨var, tail, rfl, hk⟩ := starts
      exact .inl ⟨var, _, rfl, List.mem_singleton.2 hk, tail, rfl, clause⟩
    · refine .inr ⟨?_, read⟩
      obtain ⟨used, dangling, rfl, derived, -⟩ := read
      obtain ⟨token, tail, rfl, hk⟩ := derived.starts
      rw [List.cons_append, stops_cons]
      exact fun here => hk (List.mem_append_right _ here)

/-- The declarations of a block and the brace that closes it. -/
theorem block {declaration : Parse Stmt}
    (h : Reads declaration (DeclarationReading levels inFunction)) :
    Reads (block declaration) (BlockReading levels inFunction) := by
  refine ((many _ h fun _ _ _ read => read.progress).bind fun statements =>
    (expect _ _).bind fun _ => .pure _).congr fun tokens statements rest => ⟨?_, ?_⟩
  · rintro ⟨_, _, repeated, closing, _, ⟨rfl, hk⟩, rfl, rfl⟩
    obtain ⟨declarations, rfl, each, rfl, -⟩ := repeated.declarations
    exact ⟨declarations, closing, rfl, each, hk, rfl⟩
  · rintro ⟨declarations, closing, rfl, each, hk, rfl⟩
    refine ⟨_, closing :: rest, .ofDeclarations ?_ ?_ declarations each, closing, rest, ⟨rfl, hk⟩,
      rfl, rfl⟩
    · rintro kind rfl'
      cases rfl'
      rfl
    · rintro token head
      cases head
      rw [hk]

/-! ## Statements by their first token -/

variable {token : Token}

theorem printStatement (h : Reads expression (Greedy levels .expression))
    (hk : token.kind = .kwPrint) :
    Reads (printStatement expression) (ClauseReading levels inFunction token) := by
  refine (terminated h .semicolonAfterValueMissing .print).congr fun tokens s rest => ?_
  simp only [ClauseReading, StatementClause, hk]
  constructor
  · rintro ⟨used, semicolon, e, rfl, derived, hk', rfl⟩
    exact ⟨used ++ [semicolon], false, by simp,
      ⟨rfl, used, semicolon, e, rfl, derived, hk', rfl⟩, by simp⟩
  · rintro ⟨_, _, rfl, ⟨rfl, used, semicolon, e, rfl, derived, hk', rfl⟩, -⟩
    exact ⟨used, semicolon, e, by simp, derived, hk', rfl⟩

theorem blockStatement {declaration : Parse Stmt}
    (h : Reads declaration (DeclarationReading levels inFunction))
    (hk : token.kind = .leftBrace) :
    Reads (.block <$> Parse.block declaration) (ClauseReading levels inFunction token) := by
  refine ((block h).map Stmt.block).congr fun tokens s rest => ?_
  simp only [ClauseReading, StatementClause, hk]
  constructor
  · rintro ⟨_, ⟨declarations, closing, rfl, each, hk', rfl⟩, rfl⟩
    exact ⟨declarations.flatMap (·.1) ++ [closing], false, by simp,
      ⟨rfl, declarations, closing, rfl, each, hk', rfl⟩, by simp⟩
  · rintro ⟨_, _, rfl, ⟨rfl, declarations, closing, rfl, each, hk', rfl⟩, -⟩
    exact ⟨_, ⟨declarations, closing, by simp, each, hk', rfl⟩, rfl⟩

/-- A condition in parentheses and the statement behind it. -/
theorem conditional {α : Type} (h : Reads expression (Greedy levels .expression))
    (notOpened notClosed : SyntaxError.Cause) {then' : Expr → Parse α} {spec : Expr → Reading α}
    (h' : ∀ condition, Reads (then' condition) (spec condition)) :
    Reads (do
        let _ ← Parse.expect .leftParen notOpened
        let condition ← expression
        let _ ← Parse.expect .rightParen notClosed
        then' condition) fun tokens a rest => ∃ opening used condition closing mid,
      tokens = opening :: used ++ closing :: mid ∧ opening.kind = .leftParen ∧
        Derives levels .expression used condition ∧ closing.kind = .rightParen ∧
        spec condition mid a rest := by
  refine ((expect _ _).bind fun _ => h.bind fun condition => (expect _ _).bind fun _ =>
    h' condition).congr fun tokens a rest => ⟨?_, ?_⟩
  · rintro ⟨opening, _, ⟨rfl, hopen⟩, condition, _, ⟨used, rfl, derived, -⟩, closing, mid,
      ⟨rfl, hclose⟩, after⟩
    exact ⟨opening, used, condition, closing, mid, rfl, hopen, derived, hclose, after⟩
  · rintro ⟨opening, used, condition, closing, mid, rfl, hopen, derived, hclose, after⟩
    refine ⟨opening, _, ⟨rfl, hopen⟩, condition, closing :: mid, ⟨used, rfl, derived, ?_⟩, closing,
      mid, ⟨rfl, hclose⟩, after⟩
    rw [stops_cons, hclose]
    decide

/-- The branches behind a condition; the first stands alone if no `else`
follows. -/
theorem ifBranches (h : Reads statement (StatementReading levels inFunction))
    (condition : Expr) :
    Reads (do
      let thenBranch ← statement
      match ← Parse.accept? [.kwElse] with
      | some _ => Pure.pure (.ifElse condition thenBranch (← statement))
      | none => Pure.pure (.ifThen condition thenBranch) : Parse Stmt)
      fun tokens s rest => ∃ thenBranch mid,
        StatementReading levels inFunction tokens thenBranch mid ∧
          ((∃ elseToken tail, mid = elseToken :: tail ∧ elseToken.kind ∈ [Token.Kind.kwElse] ∧
              ∃ elseBranch, StatementReading levels inFunction tail elseBranch rest ∧
                s = .ifElse condition thenBranch elseBranch) ∨
            (Stops [.kwElse] mid ∧ s = .ifThen condition thenBranch ∧ rest = mid)) :=
  h.bind fun thenBranch =>
    accept? [.kwElse] (fun _ _ => h.map (Stmt.ifElse condition thenBranch)) (.pure _)

theorem ifStatement (h : Reads expression (Greedy levels .expression))
    (h' : Reads statement (StatementReading levels inFunction)) (hk : token.kind = .kwIf) :
    Reads (ifStatement expression statement) (ClauseReading levels inFunction token) := by
  refine (conditional h .ifNotOpened .ifNotClosed (ifBranches h')).congr
    fun tokens s rest => ?_
  simp only [ClauseReading, StatementClause, hk]
  constructor
  · rintro ⟨opening, used, condition, closing, _, rfl, hopen, derived, hclose, thenBranch, _,
      ⟨used', inner, rfl, derived', stops⟩,
      ⟨elseToken, _, rfl, helse, _, ⟨used'', dangling, rfl, derived'', stops'⟩, rfl⟩ |
        ⟨stops', rfl, rfl⟩⟩
    · have closed : inner = false := by
        rw [← Bool.not_eq_true]
        intro dangles
        exact (stops_cons ..).1 (stops dangles) helse
      exact ⟨_, dangling, by simp, ⟨opening, used, condition, closing, used', thenBranch, inner,
        hopen, derived, hclose, derived', .inr ⟨closed, elseToken, used'', _, rfl,
          List.mem_singleton.1 helse, derived'', rfl⟩⟩, stops'⟩
    · exact ⟨_, true, by simp, ⟨opening, used, condition, closing, used', thenBranch, inner,
        hopen, derived, hclose, derived', .inl ⟨rfl, rfl, rfl⟩⟩, fun _ => stops'⟩
  · rintro ⟨_, dangling, rfl, ⟨opening, used, condition, closing, used', thenBranch, inner, hopen,
      derived, hclose, derived', ⟨rfl, rfl, rfl⟩ |
        ⟨rfl, elseToken, used'', elseBranch, rfl, helse, derived'', rfl⟩⟩, stops⟩
    · exact ⟨opening, used, condition, closing, used' ++ rest, by simp, hopen, derived, hclose,
        thenBranch, rest, ⟨used', inner, rfl, derived', fun _ => stops rfl⟩,
        .inr ⟨stops rfl, rfl, rfl⟩⟩
    · exact ⟨opening, used, condition, closing, used' ++ elseToken :: (used'' ++ rest), by simp,
        hopen, derived, hclose, thenBranch, _, ⟨used', false, rfl, derived', by simp⟩,
        .inl ⟨elseToken, _, rfl, List.mem_singleton.2 helse, elseBranch,
          ⟨used'', dangling, rfl, derived'', stops⟩, rfl⟩⟩

theorem whileStatement (h : Reads expression (Greedy levels .expression))
    (h' : Reads statement (StatementReading levels inFunction)) (hk : token.kind = .kwWhile) :
    Reads (whileStatement expression statement) (ClauseReading levels inFunction token) := by
  refine (conditional h .whileNotOpened .whileNotClosed fun condition =>
    h'.map (Stmt.whileLoop condition)).congr fun tokens s rest => ?_
  simp only [ClauseReading, StatementClause, hk]
  constructor
  · rintro ⟨opening, used, condition, closing, _, rfl, hopen, derived, hclose, body,
      ⟨used', dangling, rfl, derived', stops⟩, rfl⟩
    exact ⟨_, dangling, by simp, ⟨opening, used, condition, closing, used', body, rfl, hopen,
      derived, hclose, derived', rfl⟩, stops⟩
  · rintro ⟨_, dangling, rfl, ⟨opening, used, condition, closing, used', body, rfl, hopen, derived,
      hclose, derived', rfl⟩, stops⟩
    exact ⟨opening, used, condition, closing, used' ++ rest, by simp, hopen, derived, hclose, body,
      ⟨used', dangling, rfl, derived', stops⟩, rfl⟩

/-- An expression that may be left out, the token that ends it either way and
what comes behind. -/
theorem optional {α β : Type} {present : Parse α} {absent : α} {f : Expr → α}
    (h : Reads present fun tokens a rest =>
      ∃ e, Greedy levels .expression tokens e rest ∧ a = f e)
    {kind : Token.Kind} (starts : kind ∉ Symbol.starters .expression)
    (stops : kind ∉ Symbol.continuers .expression) (real : kind ≠ .eof)
    {then' : α → Parse β} {spec : α → Reading β} (h' : ∀ a, Reads (then' a) fun tokens b rest =>
      ∃ closing mid, tokens = closing :: mid ∧ closing.kind = kind ∧ spec a mid b rest) :
    Reads (do
        if ← Parse.check kind then
          let a ← Pure.pure absent
          then' a
        else
          let a ← present
          then' a) fun tokens b rest => ∃ used value? closing mid,
      tokens = used ++ closing :: mid ∧ OptExpression levels used value? ∧
        closing.kind = kind ∧ spec (value?.elim absent f) mid b rest := by
  refine (check kind ((Reads.pure absent).bind h') (h.bind h') real).congr
    fun tokens b rest => ⟨?_, ?_⟩
  · rintro (⟨_, _, rfl, -, _, _, ⟨rfl, rfl⟩, closing, mid, same, hk, after⟩ |
      ⟨-, _, _, ⟨e, ⟨used, rfl, derived, -⟩, rfl⟩, closing, mid, rfl, hk, after⟩)
    · exact ⟨[], none, closing, mid, same, .absent, hk, after⟩
    · exact ⟨used, some e, closing, mid, rfl, .present derived, hk, after⟩
  · rintro ⟨used, value?, closing, mid, rfl, value, hk, after⟩
    cases value with
    | absent =>
        exact .inl ⟨closing, mid, rfl, hk, absent, _, ⟨rfl, rfl⟩, closing, mid, rfl, hk, after⟩
    | @present _ e derived =>
        refine .inr ⟨?_, f e, closing :: mid, ⟨e, ⟨used, rfl, derived, ?_⟩, rfl⟩, closing, mid, rfl,
          hk, after⟩
        · obtain ⟨first, others, rfl, hk'⟩ := derived.starts
          rw [List.cons_append, stops_cons, List.mem_singleton]
          rintro rfl
          exact starts hk'
        · rw [stops_cons, hk]
          exact stops

theorem forInitial (h : Reads expression (Greedy levels .expression)) :
    Reads (forInitial expression) fun tokens initial rest =>
      ∃ used, tokens = used ++ rest ∧ ForInitial levels used initial := by
  have some' : ∀ first : Token, first.kind ∈ [Token.Kind.semicolon, .kwVar] →
      Reads (if first.kind = .semicolon then Pure.pure none
        else some <$> Parse.varDeclaration expression)
        fun tokens initial rest => ∃ used, tokens = used ++ rest ∧
          ((first.kind = .semicolon ∧ used = [] ∧ initial = none) ∨
            ∃ s, initial = some s ∧ VarDecl levels (first :: used) s) := by
    intro first hk
    by_cases hsemicolon : first.kind = .semicolon
    · rw [if_pos hsemicolon]
      refine (Reads.pure none).congr fun tokens initial rest => ⟨?_, ?_⟩
      · rintro ⟨rfl, rfl⟩
        exact ⟨[], rfl, .inl ⟨hsemicolon, rfl, rfl⟩⟩
      · rintro ⟨used, rfl, ⟨-, rfl, rfl⟩ | ⟨s, rfl, clause⟩⟩
        · exact ⟨rfl, rfl⟩
        · cases clause with
          | plain hvar | initialized hvar => cases hsemicolon.symm.trans hvar
    · rw [if_neg hsemicolon]
      have hvar : first.kind = .kwVar := by simpa [hsemicolon] using hk
      refine ((varDeclaration h hvar).map some).congr fun tokens initial rest => ⟨?_, ?_⟩
      · rintro ⟨s, ⟨used, rfl, clause⟩, rfl⟩
        exact ⟨used, rfl, .inr ⟨s, rfl, clause⟩⟩
      · rintro ⟨used, rfl, ⟨here, -⟩ | ⟨s, rfl, clause⟩⟩
        · exact absurd here hsemicolon
        · exact ⟨s, ⟨used, rfl, clause⟩, rfl⟩
  have none' := (terminated h .semicolonAfterExpressionMissing .expression).map some
  refine (accept? [.semicolon, .kwVar] some' none').congr fun tokens initial rest => ⟨?_, ?_⟩
  · rintro (⟨first, _, rfl, -, used, rfl, ⟨hk, rfl, rfl⟩ | ⟨s, rfl, clause⟩⟩ |
      ⟨-, _, ⟨used, semicolon, e, rfl, derived, hk, rfl⟩, rfl⟩)
    · exact ⟨[first], rfl, .absent hk⟩
    · exact ⟨first :: used, rfl, .var clause⟩
    · exact ⟨used ++ [semicolon], by simp, .expression (.intro derived hk)⟩
  · rintro ⟨used, rfl, initial⟩
    cases initial with
    | @absent semicolon hk =>
        exact .inl ⟨semicolon, rest, rfl, by simp [hk], [], rfl, .inl ⟨hk, rfl, rfl⟩⟩
    | @var _ s clause =>
        have starts : ∃ first others, used = first :: others ∧ first.kind = .kwVar := by
          cases clause with
          | plain hk | initialized hk => exact ⟨_, _, rfl, hk⟩
        obtain ⟨first, others, rfl, hk⟩ := starts
        exact .inl ⟨first, _, rfl, by simp [hk], others, rfl, .inr ⟨s, rfl, clause⟩⟩
    | expression clause =>
        cases clause with
        | @intro semicolon used e derived hk =>
            refine .inr ⟨?_, _, ⟨used, semicolon, e, by simp, derived, hk, rfl⟩, rfl⟩
            obtain ⟨first, others, rfl, hk'⟩ := derived.starts
            have disjoint : ∀ kind ∈ Symbol.starters .expression,
                kind ∉ [Token.Kind.semicolon, .kwVar] := by decide
            rw [List.append_assoc, List.cons_append, stops_cons]
            exact disjoint _ hk'

theorem forLoop_eq (initial : Option Stmt) (condition : Expr) (increment : Option Expr)
    (body : Stmt) :
    forLoop initial condition increment body = loopTree initial condition increment body := by
  cases initial <;> cases increment <;> rfl

theorem forStatement (h : Reads expression (Greedy levels .expression))
    (h' : Reads statement (StatementReading levels inFunction)) (hk : token.kind = .kwFor) :
    Reads (forStatement expression statement) (ClauseReading levels inFunction token) := by
  have body : ∀ initial condition increment, Reads (do
      let _ ← Parse.expect .rightParen .forNotClosed
      Pure.pure (forLoop initial condition increment (← statement)) : Parse Stmt) _ :=
    fun initial condition increment => expected .rightParen _ fun _ =>
      h'.map (forLoop initial condition increment)
  have clauses : ∀ initial condition, Reads (do
      let _ ← Parse.expect .semicolon .semicolonAfterConditionMissing
      let increment ← if ← Parse.check .rightParen then Pure.pure none else some <$> expression
      let _ ← Parse.expect .rightParen .forNotClosed
      Pure.pure (forLoop initial condition increment (← statement)) : Parse Stmt) _ :=
    fun initial condition => expected .semicolon _ fun _ =>
      optional (h.map some) (by decide) (by decide) (by decide) (body initial condition)
  have condition : Reads expression fun tokens e rest =>
      ∃ e', Greedy levels .expression tokens e' rest ∧ e = id e' :=
    h.congr fun tokens e rest => by simp
  have whole : Reads (Parse.forStatement expression statement) _ :=
    expected .leftParen _ fun _ => (forInitial h).bind fun initial =>
      optional condition (by decide) (by decide) (by decide) (clauses initial)
  refine whole.congr fun tokens s rest => ?_
  simp only [ClauseReading, StatementClause, hk]
  constructor
  · rintro ⟨opening, _, rfl, hopen, initial, _, ⟨first, rfl, hinitial⟩, second, condition?,
      semicolon, _, rfl, hcondition, hsemicolon, third, increment?, closing, _, rfl, hincrement,
      hclose, body, ⟨used, dangling, rfl, derived, stops⟩, rfl⟩
    refine ⟨opening :: first ++ second ++ semicolon :: third ++ closing :: used, dangling, by simp,
      ⟨opening, first, initial, second, condition?, semicolon, third, increment?, closing, used,
        body, rfl, hopen, hinitial, hcondition, hsemicolon, hincrement, hclose, derived, ?_⟩, stops⟩
    cases condition? <;> cases increment? <;> exact forLoop_eq ..
  · rintro ⟨_, dangling, rfl, ⟨opening, first, initial, second, condition?, semicolon, third,
      increment?, closing, used, body, rfl, hopen, hinitial, hcondition, hsemicolon, hincrement,
      hclose, derived, rfl⟩, stops⟩
    refine ⟨opening, first ++ (second ++ semicolon :: (third ++ closing :: (used ++ rest))),
      by simp, hopen, initial, _, ⟨first, rfl, hinitial⟩, second, condition?, semicolon, _, rfl,
      hcondition, hsemicolon, third, increment?, closing, _, rfl, hincrement, hclose, body,
      ⟨used, dangling, rfl, derived, stops⟩, ?_⟩
    cases condition? <;> cases increment? <;> exact (forLoop_eq ..).symm

theorem functionStatement {declaration : Parse Stmt}
    (h : Reads declaration (DeclarationReading levels true)) (hk : token.kind = .kwFun) :
    Reads (functionStatement declaration) (ClauseReading levels inFunction token) := by
  have param : Reads (Parse.expect .identifier .parameterNameMissing)
      (Longest (fun used param => used = [param] ∧ param.kind = .identifier) []) := by
    refine (expect _ _).congr fun tokens param rest => ⟨?_, ?_⟩
    · rintro ⟨rfl, hparam⟩
      exact ⟨[param], rfl, ⟨rfl, hparam⟩, by simp [Stops]⟩
    · rintro ⟨_, rfl, ⟨rfl, hparam⟩, -⟩
      exact ⟨rfl, hparam⟩
  have starts : ∀ (used : List Token) (param : Token),
      used = [param] ∧ param.kind = .identifier →
        ∃ first others, used = first :: others ∧ first.kind ≠ .rightParen := by
    rintro _ param ⟨rfl, hparam⟩
    exact ⟨param, [], rfl, by rw [hparam]; decide⟩
  have whole : Reads (Parse.functionStatement declaration) _ :=
    expected .identifier _ fun name => expected .leftParen _ fun _ =>
      listed param starts (by decide) (by decide) _ _ fun params _ =>
        expected .leftBrace _ fun _ => (block h).map (Stmt.function name params)
  refine whole.congr fun tokens s rest => ?_
  simp only [ClauseReading, StatementClause, hk]
  constructor
  · rintro ⟨name, _, rfl, hname, opening, _, rfl, hopen, _, closing, _,
      ⟨parts, inner, rfl, each, separated, bound, rfl, hclose⟩, bodyOpening, _, rfl, hbody, _,
      ⟨declarations, bodyClosing, rfl, each', hend, rfl⟩, rfl⟩
    have single : parts.map (·.1) = (parts.map (·.2)).map ([·]) := by
      rw [List.map_map]
      exact List.map_congr_left fun part member => (each part member).1
    have names : ∀ param ∈ parts.map (·.2), param.kind = .identifier := by
      rintro _ listed
      obtain ⟨part, member, rfl⟩ := List.mem_map.1 listed
      exact (each part member).2
    rw [single] at separated
    exact ⟨_, false, by simp, ⟨rfl, name, opening, parts.map (·.2), inner, closing, bodyOpening,
      declarations, bodyClosing, rfl, hname, hopen, names, separated, by simpa using bound, hclose,
      hbody, each', hend, rfl⟩, by simp⟩
  · rintro ⟨_, _, rfl, ⟨rfl, name, opening, params, inner, closing, bodyOpening, declarations,
      bodyClosing, rfl, hname, hopen, names, separated, bound, hclose, hbody, each', hend, rfl⟩, -⟩
    have each : ∀ part ∈ params.map fun param => ([param], param),
        part.1 = [part.2] ∧ part.2.kind = .identifier := by
      rintro _ listed
      obtain ⟨param, member, rfl⟩ := List.mem_map.1 listed
      exact ⟨rfl, names param member⟩
    refine ⟨name, _, rfl, hname, opening, _, rfl, hopen, params, closing, _,
      ⟨params.map fun param => ([param], param), inner, ?_, each, ?_, ?_, ?_, hclose⟩,
      bodyOpening, _, rfl, hbody, _, ⟨declarations, bodyClosing, rfl, each', hend, rfl⟩, rfl⟩
    · simp
    · rw [List.map_map]
      exact separated
    · rw [List.length_map]
      exact bound
    · rw [List.map_map]
      exact (List.map_id' params).symm

theorem returnStatement (h : Reads expression (Greedy levels .expression)) (functions : Nat)
    (hk : token.kind = .kwReturn) :
    Reads (returnStatement expression functions token)
      (ClauseReading levels (decide (0 < functions)) token) := by
  have closing : ∀ value, Reads (do
      let _ ← Parse.expect .semicolon .semicolonAfterReturnMissing
      Pure.pure (.returns token value) : Parse Stmt) fun tokens s rest => ∃ semicolon mid,
        tokens = semicolon :: mid ∧ semicolon.kind = .semicolon ∧
          s = .returns token value ∧ rest = mid :=
    fun value => expected .semicolon _ fun _ => .pure _
  have value : Reads (do
      let value ← if ← Parse.check .semicolon then Pure.pure none else some <$> expression
      let _ ← Parse.expect .semicolon .semicolonAfterReturnMissing
      Pure.pure (.returns token value) : Parse Stmt) _ :=
    optional (h.map some) (by decide) (by decide) (by decide) closing
  by_cases outside : functions = 0
  · have reported : Reads (Parse.returnStatement expression functions token)
        fun _ _ _ => False := by
      unfold Parse.returnStatement
      simp only [if_pos outside]
      exact recorded _ _ value
    refine reported.congr fun tokens s rest => ⟨False.elim, ?_⟩
    simp only [ClauseReading, StatementClause, hk]
    rintro ⟨_, _, -, ⟨-, inside, -⟩, -⟩
    simp [outside] at inside
  · have inside : decide (0 < functions) = true := by
      simpa using Nat.pos_of_ne_zero outside
    unfold Parse.returnStatement
    simp only [if_neg outside]
    refine value.congr fun tokens s rest => ?_
    simp only [ClauseReading, StatementClause, hk, inside]
    constructor
    · rintro ⟨used, value?, semicolon, _, rfl, hvalue, hsemicolon, rfl, rfl⟩
      refine ⟨used ++ [semicolon], false, by simp, ⟨rfl, trivial, used, semicolon, value?, rfl,
        hvalue, hsemicolon, ?_⟩, by simp⟩
      cases value? <;> rfl
    · rintro ⟨_, _, rfl, ⟨rfl, -, used, semicolon, value?, rfl, hvalue, hsemicolon, rfl⟩, -⟩
      refine ⟨used, value?, semicolon, rest, by simp, hvalue, hsemicolon, ?_, rfl⟩
      cases value? <;> rfl

/-! ## All statements -/

/-- A statement that is an expression, from its first token on. -/
theorem expressionClause_iff {tail rest : List Token} {s : Stmt} (other : token.kind ∉ statementKinds) :
    (∃ used semicolon e, token :: tail = used ++ semicolon :: rest ∧
        Derives levels .expression used e ∧ semicolon.kind = .semicolon ∧ s = .expression e) ↔
      ClauseReading levels inFunction token tail s rest := by
  have clause_iff : ∀ dangling used, StatementClause levels inFunction dangling token used s ↔
      dangling = false ∧ ExprStmt levels (token :: used) s := by
    intro dangling used
    unfold StatementClause
    split
    case h_8 => exact Iff.rfl
    all_goals
      rename_i hk
      rw [hk] at other
      exact absurd (by decide) other
  simp only [ClauseReading, clause_iff]
  constructor
  · rintro ⟨used, semicolon, e, same, derived, hk, rfl⟩
    obtain ⟨first, others, rfl, -⟩ := derived.starts
    cases same
    exact ⟨others ++ [semicolon], false, by simp, ⟨rfl, .intro derived hk⟩, by simp⟩
  · rintro ⟨used, _, rfl, ⟨rfl, clause⟩, -⟩
    generalize htokens : token :: used = tokens at clause
    cases clause with
    | @intro semicolon inner e derived hk =>
        exact ⟨inner, semicolon, e, by rw [← List.cons_append, htokens]; simp, derived, hk, rfl⟩

end

/-- A statement is read if the expressions and statements in it are. -/
theorem statementBody {expression : Parse Expr} {statement : Nat → Parse Stmt}
    (h : Reads expression (Greedy levels .expression))
    (h' : ∀ functions, Reads (statement functions)
      (StatementReading levels (decide (0 < functions)))) (functions : Nat) :
    Reads (statementBody expression statement functions)
      (StatementReading (levels + 1) (decide (0 < functions))) := by
  have byKind : ∀ token, token.kind ∈ statementKinds → Reads
      (match token.kind with
        | .kwPrint => Parse.printStatement expression
        | .leftBrace => .block <$> Parse.block (Parse.declaration expression (statement functions))
        | .kwIf => Parse.ifStatement expression (statement functions)
        | .kwWhile => Parse.whileStatement expression (statement functions)
        | .kwFor => Parse.forStatement expression (statement functions)
        | .kwFun => Parse.functionStatement (Parse.declaration expression (statement (functions + 1)))
        | .kwReturn => Parse.returnStatement expression functions token
        | _ => Parse.failAt .statementUnknown token : Parse Stmt)
      (ClauseReading levels (decide (0 < functions)) token) := by
    intro token known
    have inside := h' (functions + 1)
    rw [decide_eq_true (Nat.succ_pos functions)] at inside
    split
    case h_1 hk => exact printStatement h hk
    case h_2 hk => exact blockStatement (declaration h (h' functions)) hk
    case h_3 hk => exact ifStatement h (h' functions) hk
    case h_4 hk => exact whileStatement h (h' functions) hk
    case h_5 hk => exact forStatement h (h' functions) hk
    case h_6 hk => exact functionStatement (declaration h inside) hk
    case h_7 hk => exact returnStatement h functions hk
    case h_8 => simp_all [statementKinds]
  refine (accept? statementKinds byKind (terminated h _ .expression)).congr fun tokens s rest => ?_
  cases tokens with
  | nil =>
      constructor
      · rintro (⟨_, _, same, -⟩ | ⟨-, used, semicolon, e, same, -⟩)
        · cases same
        · simp at same
      · rintro ⟨used, dangling, same, derived, -⟩
        obtain ⟨first, others, rfl, -⟩ := derived.starts
        cases same
  | cons token tail =>
      rw [← clauseReading_iff]
      by_cases known : token.kind ∈ statementKinds
      · constructor
        · rintro (⟨_, _, same, -, read⟩ | ⟨stops, -⟩)
          · cases same
            exact read
          · exact absurd known ((stops_cons ..).1 stops)
        · exact fun read => .inl ⟨token, tail, rfl, known, read⟩
      · rw [← expressionClause_iff known]
        constructor
        · rintro (⟨_, _, same, here, -⟩ | ⟨-, read⟩)
          · cases same
            exact absurd here known
          · exact read
        · exact fun read => .inr ⟨(stops_cons ..).2 known, read⟩

theorem statement : ∀ levels functions, Reads (statement levels functions)
    (StatementReading levels (decide (0 < functions)))
  | 0, _ => by
      refine (Reads.fail _).congr fun tokens s rest => ⟨False.elim, ?_⟩
      rintro ⟨used, dangling, rfl, derived, -⟩
      cases derived
  | levels + 1, functions => statementBody (expression levels) (statement levels) functions

/-- Declarations up to the end of the tokens. -/
theorem declarations (levels : Nat) :
    Reads (Parse.many none (Parse.declaration (Parse.expression levels) (Parse.statement levels 0)))
      fun tokens program rest => DerivesWithin levels tokens program ∧ rest = [] := by
  refine (many none (declaration (expression levels) (statement levels 0))
    fun _ _ _ read => read.progress).congr fun tokens program rest => ⟨?_, ?_⟩
  · intro repeated
    obtain ⟨declarations, rfl, each, rfl, closed⟩ := repeated.declarations
    have last : rest = [] := by
      cases rest with
      | nil => rfl
      | cons token _ => cases closed token rfl
    subst last
    rw [List.append_nil]
    exact ⟨.intro each, rfl⟩
  · rintro ⟨whole, rfl⟩
    cases whole with
    | @intro declarations each =>
        have read : Repeated none (DeclarationReading levels false)
            (declarations.flatMap (·.1) ++ []) (declarations.map (·.2)) [] :=
          .ofDeclarations (by simp) (by simp) declarations each
        rwa [List.append_nil] at read

end Reads

end Parse

end Scriptlet
