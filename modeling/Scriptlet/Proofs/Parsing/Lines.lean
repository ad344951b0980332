/-
# The grammar does not look at lines

Tokens that differ from others in lines only are derived in the same way, as a
tree that differs in lines only.  So what is parsed of a text depends on where
its lines end just as far as the tree says on which line its tokens stood.
-/
import Scriptlet.Proofs.Parsing.Grammar
import Scriptlet.Proofs.Tree.Lines
import Mathlib.Data.List.Forall2

namespace Scriptlet

namespace Token

/-- The tokens are the same up to lines. -/
def Alike (tokens' tokens : List Token) : Prop := tokens'.map unlined = tokens.map unlined

namespace Alike

variable {tokens tokens' : List Token}

theorem refl (tokens : List Token) : Alike tokens tokens := rfl

theorem cons {t : Token} (h : Alike tokens' (t :: tokens)) :
    ∃ t' rest, tokens' = t' :: rest ∧ t'.unlined = t.unlined ∧ Alike rest tokens :=
  List.map_eq_cons_iff.1 h

theorem append {first second : List Token} (h : Alike tokens' (first ++ second)) :
    ∃ first' second', tokens' = first' ++ second' ∧ Alike first' first ∧ Alike second' second := by
  unfold Alike at h
  rw [List.map_append] at h
  exact List.map_eq_append_iff.1 h

theorem singleton {t : Token} (h : Alike tokens' [t]) :
    ∃ t', tokens' = [t'] ∧ t'.unlined = t.unlined :=
  List.map_eq_singleton_iff.1 h

theorem nil (h : Alike tokens' []) : tokens' = [] := List.map_eq_nil_iff.1 h

theorem mem (h : Alike tokens' tokens) {t' : Token} (member : t' ∈ tokens') :
    ∃ t ∈ tokens, t'.unlined = t.unlined := by
  have listed : t'.unlined ∈ tokens.map unlined := by
    rw [← show tokens'.map unlined = tokens.map unlined from h]
    exact List.mem_map_of_mem member
  obtain ⟨t, member, same⟩ := List.mem_map.1 listed
  exact ⟨t, member, same.symm⟩

/-- What stands between two tokens. -/
theorem enclosed {opening closing : Token} {inner : List Token}
    (h : Alike tokens' (opening :: inner ++ [closing])) :
    ∃ opening' inner' closing', tokens' = opening' :: inner' ++ [closing'] ∧
      opening'.unlined = opening.unlined ∧ Alike inner' inner ∧
      closing'.unlined = closing.unlined := by
  obtain ⟨_, _, rfl, front, last⟩ := h.append
  obtain ⟨closing', rfl, closingSame⟩ := last.singleton
  obtain ⟨opening', inner', rfl, openingSame, inside⟩ := front.cons
  exact ⟨opening', inner', closing', rfl, openingSame, inside, closingSame⟩

/-- Parts of one token each. -/
theorem singletons {tokens : List Token} : ∀ {parts : List (List Token)},
    List.Forall₂ Alike parts (tokens.map ([·])) →
      ∃ tokens' : List Token, parts = tokens'.map ([·]) ∧ Alike tokens' tokens := by
  induction tokens with
  | nil =>
      intro parts each
      cases each
      exact ⟨[], rfl, refl []⟩
  | cons t tokens ih =>
      intro parts each
      cases each with
      | cons here later =>
          obtain ⟨t', rfl, same⟩ := singleton here
          obtain ⟨tokens', rfl, alike⟩ := ih later
          refine ⟨t' :: tokens', rfl, ?_⟩
          unfold Alike at alike ⊢
          rw [List.map_cons, List.map_cons, same, alike]

theorem flatten {parts : List (List Token)} : ∀ {tokens'}, Alike tokens' parts.flatten →
    ∃ parts', tokens' = parts'.flatten ∧ List.Forall₂ Alike parts' parts := by
  induction parts with
  | nil =>
      intro tokens' h
      exact ⟨[], h.nil, .nil⟩
  | cons part parts ih =>
      intro tokens' h
      obtain ⟨part', rest, rfl, here, later⟩ := append h
      obtain ⟨parts', rfl, each⟩ := ih later
      exact ⟨part' :: parts', rfl, .cons here each⟩

end Alike

end Token

open Token (Alike)

namespace Grammar

variable {levels : Nat} {inFunction : Bool} {tokens tokens' : List Token}

/-! ## Lists of parts -/

/-- If every part can be carried over to tokens that are alike, so can the list. -/
theorem carry_parts {α : Type} {derives : List Token → α → Prop} {forget : α → α}
    {parts : List (List Token × α)}
    (h : ∀ part ∈ parts, ∀ {used}, Alike used part.1 →
      ∃ a, derives used a ∧ forget a = forget part.2) :
    ∀ {used}, List.Forall₂ Alike used (parts.map (·.1)) →
      ∃ parts' : List (List Token × α), parts'.map (·.1) = used ∧
        (∀ part ∈ parts', derives part.1 part.2) ∧
        (parts'.map (·.2)).map forget = (parts.map (·.2)).map forget := by
  induction parts with
  | nil =>
      intro used alike
      cases alike
      exact ⟨[], rfl, by simp, rfl⟩
  | cons part parts ih =>
      intro used alike
      obtain ⟨here, later⟩ := List.forall_mem_cons.1 h
      cases alike with
      | cons same rest =>
          obtain ⟨a, derived, treeSame⟩ := here same
          obtain ⟨parts', rfl, each, treesSame⟩ := ih later rest
          refine ⟨(_, a) :: parts', rfl, List.forall_mem_cons.2 ⟨derived, each⟩, ?_⟩
          rw [List.map_cons, List.map_cons, List.map_cons, List.map_cons, treeSame, treesSame]

theorem Separated.carry {parts : List (List Token)} (h : Separated parts tokens) :
    ∀ {tokens'}, Alike tokens' tokens →
      ∃ parts', Separated parts' tokens' ∧ List.Forall₂ Alike parts' parts := by
  induction h with
  | none =>
      intro tokens' alike
      rw [alike.nil]
      exact ⟨[], .none, .nil⟩
  | one part =>
      intro tokens' alike
      exact ⟨[tokens'], .one tokens', .cons alike .nil⟩
  | more comma _ ih =>
      intro tokens' alike
      obtain ⟨part', _, rfl, here, later⟩ := alike.append
      obtain ⟨comma', rest, rfl, same, later⟩ := later.cons
      obtain ⟨parts', separated, each⟩ := ih later
      cases each with
      | cons next each =>
          exact ⟨_, .more ((Token.kind_eq same).trans comma) separated,
            .cons here (.cons next each)⟩

/-! ## Expressions -/

theorem Rank.node_unlined (rank : Rank) (left : Expr) (operator : Token) (right : Expr) :
    (rank.node left operator right).unlined =
      rank.node left.unlined operator.unlined right.unlined := by
  cases rank <;> rfl

/-- A derivation of an expression is carried over to tokens that are alike. -/
theorem Derives.carry {symbol : Symbol} {e : Expr} (h : Derives levels symbol tokens e) :
    ∀ {tokens'}, Alike tokens' tokens →
      ∃ e', Derives levels symbol tokens' e' ∧ e'.unlined = e.unlined := by
  induction h with
  | expression _ ih =>
      intro tokens' alike
      obtain ⟨e', derived, same⟩ := ih alike
      exact ⟨e', .expression derived, same⟩
  | assign name equals _ ih =>
      intro tokens' alike
      obtain ⟨name', _, rfl, nameSame, rest⟩ := alike.cons
      obtain ⟨equals', after, rfl, equalsSame, rest⟩ := rest.cons
      obtain ⟨value', derived, same⟩ := ih rest
      refine ⟨.assign name' value', .assign ((Token.kind_eq nameSame).trans name)
        ((Token.kind_eq equalsSame).trans equals) derived, ?_⟩
      rw [Expr.unlined, Expr.unlined, nameSame, same]
  | unassigned _ ih =>
      intro tokens' alike
      obtain ⟨e', derived, same⟩ := ih alike
      exact ⟨e', .unassigned derived, same⟩
  | operand _ ih =>
      intro tokens' alike
      obtain ⟨e', derived, same⟩ := ih alike
      exact ⟨e', .operand derived, same⟩
  | @infixed levels rank _ _ operator left right _ member _ ihLeft ihRight =>
      intro tokens' alike
      obtain ⟨first, _, rfl, alikeLeft, rest⟩ := alike.append
      obtain ⟨operator', second, rfl, operatorSame, alikeRight⟩ := rest.cons
      obtain ⟨left', derivedLeft, leftSame⟩ := ihLeft alikeLeft
      obtain ⟨right', derivedRight, rightSame⟩ := ihRight alikeRight
      rw [← Token.kind_eq operatorSame] at member
      refine ⟨_, .infixed derivedLeft member derivedRight, ?_⟩
      rw [rank.node_unlined, rank.node_unlined, leftSame, operatorSame, rightSame]
  | prefixed member _ ih =>
      intro tokens' alike
      obtain ⟨operator', after, rfl, operatorSame, rest⟩ := alike.cons
      obtain ⟨e', derived, same⟩ := ih rest
      rw [← Token.kind_eq operatorSame] at member
      refine ⟨_, .prefixed member derived, ?_⟩
      rw [Expr.unlined, Expr.unlined, operatorSame, same]
  | unprefixed _ ih =>
      intro tokens' alike
      obtain ⟨e', derived, same⟩ := ih alike
      exact ⟨e', .unprefixed derived, same⟩
  | @call levels _ _ _ closing callee arguments _ opens _ separated few closes ih ihs =>
      intro tokens' alike
      obtain ⟨_, _, rfl, front, last⟩ := alike.append
      obtain ⟨closing', rfl, closingSame⟩ := last.singleton
      obtain ⟨first, _, rfl, alikeCallee, rest⟩ := front.append
      obtain ⟨opening', inner', rfl, openingSame, inside⟩ := rest.cons
      obtain ⟨callee', derived, calleeSame⟩ := ih alikeCallee
      obtain ⟨used, separated', each⟩ := separated.carry inside
      obtain ⟨arguments', rfl, derivedEach, same⟩ := carry_parts ihs each
      have count : arguments'.length = arguments.length := by
        have := each.length_eq
        rwa [List.length_map, List.length_map] at this
      rw [← count] at few
      refine ⟨_, .call derived ((Token.kind_eq openingSame).trans opens) derivedEach separated' few
        ((Token.kind_eq closingSame).trans closes), ?_⟩
      rw [Expr.unlined, Expr.unlined, calleeSame, closingSame, Expr.unlinedAll_eq,
        Expr.unlinedAll_eq, same]
  | uncalled _ ih =>
      intro tokens' alike
      obtain ⟨e', derived, same⟩ := ih alike
      exact ⟨e', .uncalled derived, same⟩
  | literal member carries =>
      intro tokens' alike
      obtain ⟨t, rfl, same⟩ := alike.singleton
      rw [← Token.kind_eq same] at member
      exact ⟨_, .literal member ((Token.literal_eq same).trans carries), rfl⟩
  | identifier name =>
      intro tokens' alike
      obtain ⟨t, rfl, same⟩ := alike.singleton
      refine ⟨_, .identifier ((Token.kind_eq same).trans name), ?_⟩
      rw [Expr.unlined, Expr.unlined, same]
  | grouping opens _ closes ih =>
      intro tokens' alike
      obtain ⟨opening', inner', closing', rfl, openingSame, inside, closingSame⟩ := alike.enclosed
      obtain ⟨e', derived, same⟩ := ih inside
      refine ⟨_, .grouping ((Token.kind_eq openingSame).trans opens) derived
        ((Token.kind_eq closingSame).trans closes), ?_⟩
      rw [Expr.unlined, Expr.unlined, same]

/-! ## Clauses -/

theorem VarDecl.carry {s : Stmt} (h : VarDecl levels tokens s) (alike : Alike tokens' tokens) :
    ∃ s', VarDecl levels tokens' s' ∧ s'.unlined = s.unlined := by
  cases h with
  | plain opens name ends =>
      obtain ⟨opens', _, rfl, opensSame, rest⟩ := alike.cons
      obtain ⟨name', _, rfl, nameSame, rest⟩ := rest.cons
      obtain ⟨ends', rfl, endsSame⟩ := rest.singleton
      refine ⟨_, .plain ((Token.kind_eq opensSame).trans opens)
        ((Token.kind_eq nameSame).trans name) ((Token.kind_eq endsSame).trans ends), ?_⟩
      rw [Stmt.unlined, Stmt.unlined, nameSame]
  | initialized opens name equals derived ends =>
      obtain ⟨_, _, rfl, front, last⟩ := alike.append
      obtain ⟨ends', rfl, endsSame⟩ := last.singleton
      obtain ⟨opens', _, rfl, opensSame, rest⟩ := front.cons
      obtain ⟨name', _, rfl, nameSame, rest⟩ := rest.cons
      obtain ⟨equals', used, rfl, equalsSame, rest⟩ := rest.cons
      obtain ⟨e', derived', same⟩ := derived.carry rest
      refine ⟨_, .initialized ((Token.kind_eq opensSame).trans opens)
        ((Token.kind_eq nameSame).trans name) ((Token.kind_eq equalsSame).trans equals) derived'
        ((Token.kind_eq endsSame).trans ends), ?_⟩
      rw [Stmt.unlined, Stmt.unlined, nameSame, same]

theorem ExprStmt.carry {s : Stmt} (h : ExprStmt levels tokens s) (alike : Alike tokens' tokens) :
    ∃ s', ExprStmt levels tokens' s' ∧ s'.unlined = s.unlined := by
  cases h with
  | intro derived ends =>
      obtain ⟨used, _, rfl, front, last⟩ := alike.append
      obtain ⟨ends', rfl, endsSame⟩ := last.singleton
      obtain ⟨e', derived', same⟩ := derived.carry front
      refine ⟨_, .intro derived' ((Token.kind_eq endsSame).trans ends), ?_⟩
      rw [Stmt.unlined, Stmt.unlined, same]

theorem ForInitial.carry {initial : Option Stmt} (h : ForInitial levels tokens initial)
    (alike : Alike tokens' tokens) : ∃ initial', ForInitial levels tokens' initial' ∧
      initial'.map Stmt.unlined = initial.map Stmt.unlined := by
  cases h with
  | absent ends =>
      obtain ⟨ends', rfl, endsSame⟩ := alike.singleton
      exact ⟨none, .absent ((Token.kind_eq endsSame).trans ends), rfl⟩
  | var declared =>
      obtain ⟨s', declared', same⟩ := declared.carry alike
      exact ⟨some s', .var declared', congrArg some same⟩
  | expression derived =>
      obtain ⟨s', derived', same⟩ := derived.carry alike
      exact ⟨some s', .expression derived', congrArg some same⟩

theorem OptExpression.carry {value : Option Expr} (h : OptExpression levels tokens value)
    (alike : Alike tokens' tokens) : ∃ value', OptExpression levels tokens' value' ∧
      value'.map Expr.unlined = value.map Expr.unlined := by
  cases h with
  | absent =>
      rw [alike.nil]
      exact ⟨none, .absent, rfl⟩
  | present derived =>
      obtain ⟨e', derived', same⟩ := derived.carry alike
      exact ⟨some e', .present derived', congrArg some same⟩

theorem loopTree_unlined (initial : Option Stmt) (condition : Expr) (increment : Option Expr)
    (body : Stmt) : (loopTree initial condition increment body).unlined =
      loopTree (initial.map Stmt.unlined) condition.unlined (increment.map Expr.unlined)
        body.unlined := by
  cases initial <;> cases increment <;> rfl

theorem getD_unlined (condition : Option Expr) :
    (condition.getD (.literal (.boolean true))).unlined =
      (condition.map Expr.unlined).getD (.literal (.boolean true)) := by
  cases condition <;> rfl

/-- What a statement begins with that has a condition in parentheses. -/
theorem carry_guard {keyword opening closing : Token} {used rest : List Token} {condition : Expr}
    (derived : Derives levels .expression used condition)
    (alike : Alike tokens' (keyword :: opening :: used ++ closing :: rest)) :
    ∃ keyword' opening' used' closing' rest' condition',
      tokens' = keyword' :: opening' :: used' ++ closing' :: rest' ∧
      keyword'.kind = keyword.kind ∧ opening'.kind = opening.kind ∧
      closing'.kind = closing.kind ∧ Derives levels .expression used' condition' ∧
      condition'.unlined = condition.unlined ∧ Alike rest' rest := by
  obtain ⟨_, _, rfl, front, last⟩ := alike.append
  obtain ⟨closing', rest', rfl, closingSame, after⟩ := last.cons
  obtain ⟨keyword', _, rfl, keywordSame, opened⟩ := front.cons
  obtain ⟨opening', used', rfl, openingSame, inside⟩ := opened.cons
  obtain ⟨condition', derived', same⟩ := derived.carry inside
  exact ⟨keyword', opening', used', closing', rest', condition', rfl, Token.kind_eq keywordSame,
    Token.kind_eq openingSame, Token.kind_eq closingSame, derived', same, after⟩

/-! ## Statements -/

theorem carry_declarations {declarations : List (List Token × Stmt)}
    (h : ∀ d ∈ declarations, ∀ {used}, Alike used d.1 →
      ∃ s, DerivesStmt levels inFunction .declaration used s ∧ s.unlined = d.2.unlined)
    (alike : Alike tokens' (declarations.flatMap (·.1))) :
    ∃ declarations' : List (List Token × Stmt), tokens' = declarations'.flatMap (·.1) ∧
      (∀ d ∈ declarations', DerivesStmt levels inFunction .declaration d.1 d.2) ∧
      (declarations'.map (·.2)).map Stmt.unlined = (declarations.map (·.2)).map Stmt.unlined := by
  rw [List.flatMap_def] at alike
  obtain ⟨parts, rfl, each⟩ := alike.flatten
  obtain ⟨declarations', rfl, derived, same⟩ := carry_parts h each
  exact ⟨declarations', (List.flatMap_def).symm, derived, same⟩

/-- A derivation of a statement is carried over to tokens that are alike. -/
theorem DerivesStmt.carry {form : Form} {s : Stmt}
    (h : DerivesStmt levels inFunction form tokens s) :
    ∀ {tokens'}, Alike tokens' tokens →
      ∃ s', DerivesStmt levels inFunction form tokens' s' ∧ s'.unlined = s.unlined := by
  induction h with
  | var declared =>
      intro tokens' alike
      obtain ⟨s', declared', same⟩ := declared.carry alike
      exact ⟨s', .var declared', same⟩
  | statement _ ih =>
      intro tokens' alike
      obtain ⟨s', derived, same⟩ := ih alike
      exact ⟨s', .statement derived, same⟩
  | expression derived =>
      intro tokens' alike
      obtain ⟨s', derived', same⟩ := derived.carry alike
      exact ⟨s', .expression derived', same⟩
  | print opens derived ends =>
      intro tokens' alike
      obtain ⟨opens', used, ends', rfl, opensSame, inside, endsSame⟩ := alike.enclosed
      obtain ⟨e', derived', same⟩ := derived.carry inside
      refine ⟨_, .print ((Token.kind_eq opensSame).trans opens) derived'
        ((Token.kind_eq endsSame).trans ends), ?_⟩
      rw [Stmt.unlined, Stmt.unlined, same]
  | @block _ _ _ _ declarations opens _ closes ihs =>
      intro tokens' alike
      obtain ⟨opens', _, closes', rfl, opensSame, inside, closesSame⟩ := alike.enclosed
      obtain ⟨declarations', rfl, derived, same⟩ := carry_declarations ihs inside
      refine ⟨_, .block ((Token.kind_eq opensSame).trans opens) derived
        ((Token.kind_eq closesSame).trans closes), ?_⟩
      rw [Stmt.unlined, Stmt.unlined, Stmt.unlinedAll_eq, Stmt.unlinedAll_eq, same]
  | ifThen keyword opens condition closes _ ih =>
      intro tokens' alike
      obtain ⟨keyword', opens', used, closes', used', condition', rfl, keywordSame, opensSame,
        closesSame, derived, conditionSame, rest⟩ := carry_guard condition alike
      obtain ⟨thenBranch', derived', thenSame⟩ := ih rest
      refine ⟨_, .ifThen (keywordSame.trans keyword) (opensSame.trans opens) derived
        (closesSame.trans closes) derived', ?_⟩
      rw [Stmt.unlined, Stmt.unlined, conditionSame, thenSame]
  | ifElse keyword opens condition closes _ elseToken _ ihThen ihElse =>
      intro tokens' alike
      obtain ⟨_, _, rfl, front, last⟩ := alike.append
      obtain ⟨elseToken', used'', rfl, elseSame, last⟩ := last.cons
      obtain ⟨keyword', opens', used, closes', used', condition', rfl, keywordSame, opensSame,
        closesSame, derived, conditionSame, rest⟩ := carry_guard condition front
      obtain ⟨thenBranch', derived', thenSame⟩ := ihThen rest
      obtain ⟨elseBranch', derived'', elseBranchSame⟩ := ihElse last
      refine ⟨_, .ifElse (keywordSame.trans keyword) (opensSame.trans opens) derived
        (closesSame.trans closes) derived' ((Token.kind_eq elseSame).trans elseToken) derived'', ?_⟩
      rw [Stmt.unlined, Stmt.unlined, conditionSame, thenSame, elseBranchSame]
  | whileLoop keyword opens condition closes _ ih =>
      intro tokens' alike
      obtain ⟨keyword', opens', used, closes', used', condition', rfl, keywordSame, opensSame,
        closesSame, derived, conditionSame, rest⟩ := carry_guard condition alike
      obtain ⟨body', derived', bodySame⟩ := ih rest
      refine ⟨_, .whileLoop (keywordSame.trans keyword) (opensSame.trans opens) derived
        (closesSame.trans closes) derived', ?_⟩
      rw [Stmt.unlined, Stmt.unlined, conditionSame, bodySame]
  | forLoop keyword opens initial condition ends increment closes _ ih =>
      intro tokens' alike
      obtain ⟨_, _, rfl, clauses, last⟩ := alike.append
      obtain ⟨closes', used, rfl, closesSame, inLoop⟩ := last.cons
      obtain ⟨_, _, rfl, front, after⟩ := clauses.append
      obtain ⟨ends', third, rfl, endsSame, inThird⟩ := after.cons
      obtain ⟨_, second, rfl, opened, inSecond⟩ := front.append
      obtain ⟨keyword', _, rfl, keywordSame, opened⟩ := opened.cons
      obtain ⟨opens', first, rfl, opensSame, inFirst⟩ := opened.cons
      obtain ⟨initial', initial, initialSame⟩ := initial.carry inFirst
      obtain ⟨condition', condition, conditionSame⟩ := condition.carry inSecond
      obtain ⟨increment', increment, incrementSame⟩ := increment.carry inThird
      obtain ⟨body', derived, bodySame⟩ := ih inLoop
      refine ⟨_, .forLoop ((Token.kind_eq keywordSame).trans keyword)
        ((Token.kind_eq opensSame).trans opens) initial condition
        ((Token.kind_eq endsSame).trans ends) increment
        ((Token.kind_eq closesSame).trans closes) derived, ?_⟩
      rw [loopTree_unlined, loopTree_unlined, getD_unlined, getD_unlined, initialSame,
        conditionSame, incrementSame, bodySame]
  | @function _ _ _ _ _ _ _ _ params _ declarations keyword name opens names separated few closes
      bodyOpens _ bodyCloses ihs =>
      intro tokens' alike
      obtain ⟨_, _, rfl, front, last⟩ := alike.append
      obtain ⟨bodyCloses', rfl, bodyClosesSame⟩ := last.singleton
      obtain ⟨_, _, rfl, heading, body⟩ := front.append
      obtain ⟨closes', _, rfl, closesSame, body⟩ := body.cons
      obtain ⟨bodyOpens', _, rfl, bodyOpensSame, inBody⟩ := body.cons
      obtain ⟨keyword', _, rfl, keywordSame, heading⟩ := heading.cons
      obtain ⟨name', _, rfl, nameSame, heading⟩ := heading.cons
      obtain ⟨opens', inner', rfl, opensSame, inside⟩ := heading.cons
      obtain ⟨_, separated', each⟩ := separated.carry inside
      obtain ⟨params', rfl, paramsSame⟩ := Token.Alike.singletons each
      obtain ⟨declarations', rfl, derived, bodySame⟩ := carry_declarations ihs inBody
      have names' : ∀ param ∈ params', param.kind = .identifier := by
        intro param' member
        obtain ⟨param, member, same⟩ := paramsSame.mem member
        exact (Token.kind_eq same).trans (names param member)
      have count : params'.length = params.length := by
        have := congrArg List.length (show params'.map _ = params.map _ from paramsSame)
        rwa [List.length_map, List.length_map] at this
      rw [← count] at few
      refine ⟨_, .function ((Token.kind_eq keywordSame).trans keyword)
        ((Token.kind_eq nameSame).trans name) ((Token.kind_eq opensSame).trans opens) names'
        separated' few ((Token.kind_eq closesSame).trans closes)
        ((Token.kind_eq bodyOpensSame).trans bodyOpens) derived
        ((Token.kind_eq bodyClosesSame).trans bodyCloses), ?_⟩
      rw [Stmt.unlined, Stmt.unlined, nameSame, show params'.map _ = params.map _ from paramsSame,
        Stmt.unlinedAll_eq, Stmt.unlinedAll_eq, bodySame]
  | @returns _ _ _ _ _ keyword value ends =>
      intro tokens' alike
      obtain ⟨keyword', used, ends', rfl, keywordSame, inside, endsSame⟩ := alike.enclosed
      obtain ⟨value', derived, same⟩ := value.carry inside
      refine ⟨_, .returns ((Token.kind_eq keywordSame).trans keyword) derived
        ((Token.kind_eq endsSame).trans ends), ?_⟩
      rw [Stmt.unlined, Stmt.unlined, keywordSame, same]

/-- A derivation of a program is carried over to tokens that are alike. -/
theorem DerivesWithin.carry {program : Program} (h : DerivesWithin levels tokens program)
    (alike : Alike tokens' tokens) : ∃ program', DerivesWithin levels tokens' program' ∧
      Program.unlined program' = Program.unlined program := by
  cases h with
  | intro each =>
      obtain ⟨declarations', rfl, derived, same⟩ :=
        carry_declarations (fun d member => (each d member).carry) alike
      exact ⟨_, .intro derived, same⟩

end Grammar

end Scriptlet
