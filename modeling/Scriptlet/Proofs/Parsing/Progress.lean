/-
# Parsing comes to an end

The loops over declarations, of a program and of a block, are written with a bound
on their rounds, and so are those over arguments, operators and assignments.  None
of these bounds is ever what ends a loop.  A round of a loop over declarations reads
at least one token, for a declaration that succeeds has read one, and behind one
that fails recovery skips one (`exists_round`).  So the loop can be told without a
bound (`Passes`), and it ends where the tokens do or where the block is closed.

After a recovery the cursor stands where a statement may begin: at the end, behind a
semicolon or at a token that starts one (`synchronize_boundary`).  And since every
failure is recorded on the way, the program is accepted exactly if nothing has been
recorded (`Program.parse_terminates`).
-/
import Scriptlet.Proofs.Parsing.Nearsighted
import Scriptlet.Proofs.Parsing.Grammar

namespace Scriptlet

/-! ## Where recovery stops -/

/-- The tokens `rest` that are left of `tokens` are none, or come behind a semicolon,
or begin with a token that starts a statement. -/
def Boundary (tokens rest : List Token) : Prop :=
  rest = [] ∨ (∃ before semicolon, tokens = before ++ semicolon :: rest ∧
    semicolon.kind = .semicolon) ∨ ∃ token ∈ rest.head?, token.kind.startsStatement

theorem Boundary.cons {tokens rest : List Token} (h : Boundary tokens rest) (token : Token) :
    Boundary (token :: tokens) rest := by
  rcases h with none | ⟨before, semicolon, rfl, hk⟩ | starts
  · exact .inl none
  · exact .inr (.inl ⟨token :: before, semicolon, rfl, hk⟩)
  · exact .inr (.inr starts)

theorem Boundary.suffix {tokens tokens' rest : List Token} (h : Boundary tokens rest)
    (shorter : tokens <:+ tokens') : Boundary tokens' rest := by
  obtain ⟨front, rfl⟩ := shorter
  induction front with
  | nil => exact h
  | cons token front ih => exact ih.cons token

theorem skipToStatement_boundary (last : Token) (tokens : List Token) :
    Boundary (last :: tokens) (skipToStatement last.kind tokens) := by
  induction tokens generalizing last with
  | nil => exact .inl rfl
  | cons token rest ih =>
      rw [skipToStatement]
      split
      case isTrue stops =>
          rcases Bool.or_eq_true_iff.1 stops with semicolon | starts
          · exact .inr (.inl ⟨[], last, rfl, of_decide_eq_true semicolon⟩)
          · exact .inr (.inr ⟨token, rfl, starts⟩)
      case isFalse => exact (ih token).cons last

theorem synchronize_boundary (tokens : List Token) : Boundary tokens (synchronize tokens) := by
  cases tokens with
  | nil => exact .inl rfl
  | cons token rest => exact skipToStatement_boundary token rest

namespace Parse

variable {α : Type}

/-! ## Rounds -/

/-- One round of a loop with recovery: from `c` it leads to `c'`, having read a token,
and yields `first` unless the rule fails.  A failure is recorded, and the cursor is
left at a boundary. -/
structure Round (rule : Parse α) (c : Cursor) (first : Option α) (c' : Cursor) : Prop where
  run : recovering rule c = .ok first c'
  leads : c.Leads c'
  progress : c'.rest.length < c.rest.length
  recovered : first = none → c'.errors ≠ c.errors ∧ Boundary c.rest c'.rest

/-- Nothing is left for a loop to do. -/
def Ended (closing : Option Token.Kind) (c : Cursor) : Prop :=
  ∀ token ∈ c.rest.head?, closing = some token.kind

theorem ended_none_iff {c : Cursor} : Ended none c ↔ c.rest = [] := by
  constructor
  · intro ended
    cases hrest : c.rest with
    | nil => rfl
    | cons token tail => cases ended token (by rw [hrest]; rfl)
  · intro hrest token head
    rw [hrest] at head
    cases head

theorem exists_of_not_ended {closing : Option Token.Kind} {c : Cursor} (h : ¬ Ended closing c) :
    ∃ token tail, c.rest = token :: tail ∧ closing ≠ some token.kind := by
  cases hrest : c.rest with
  | nil => exact absurd (fun token head => by rw [hrest] at head; cases head) h
  | cons token tail =>
      refine ⟨token, tail, rfl, fun closes => h fun first head => ?_⟩
      rw [hrest] at head
      cases head
      exact closes

/-- A loop with recovery comes from one cursor to another by any number of rounds,
and collects what they yield. -/
inductive Passes (closing : Option Token.Kind) (rule : Parse α) : Cursor → List α → Cursor → Prop
  | done (c : Cursor) : Passes closing rule c [] c
  | round {c c' c'' : Cursor} {first : Option α} {others : List α} :
      ¬ Ended closing c → Round rule c first c' → Passes closing rule c' others c'' →
      Passes closing rule c (first.toList ++ others) c''

/-- A rule that reads a token when it succeeds makes a round wherever a token is left. -/
theorem exists_round {rule : Parse α} (h : Nearsighted (fun _ => True) true rule) {c : Cursor}
    (hc : c.rest.length ≤ c.size) (some : c.rest ≠ []) : ∃ first c', Round rule c first c' := by
  cases run : rule c with
  | ok a d =>
      obtain ⟨leads, past⟩ := h.leads_ok hc run
      refine ⟨Option.some a, d, ?_, leads, past, nofun⟩
      rw [recovering, run]
  | error e d =>
      have leads := h.leads_error hc run
      have skips : d.Leads (d.facing (synchronize d.rest)) := .skip d (synchronize_suffix d.rest)
      have past : c.Past true (d.facing (synchronize d.rest)) :=
        synchronize_past some leads.rest.length_le
      refine ⟨none, { d with rest := synchronize d.rest, errors := d.errors ++ [e] }, ?_,
        leads.trans (skips.trans (.report _ e)), past, fun _ => ⟨?_, ?_⟩⟩
      · rw [recovering, run]
      · intro same
        have longer := leads.errors.length_le
        have all := congrArg List.length same
        rw [List.length_append, List.length_singleton] at all
        omega
      · exact (synchronize_boundary d.rest).suffix leads.rest

/-! ## Loops -/

/-- A loop with recovery passes over all that is left for it, and its bound on rounds
does not end it. -/
theorem manyWithin_passes (closing : Option Token.Kind) {rule : Parse α}
    (h : Nearsighted (fun _ => True) true rule) :
    ∀ (rounds : Nat) (c : Cursor), c.rest.length ≤ c.size → c.rest.length ≤ rounds →
      ∃ as c', manyWithin closing rule rounds c = .ok as c' ∧ Passes closing rule c as c' ∧
        Ended closing c' := by
  intro rounds
  induction rounds with
  | zero =>
      intro c _ enough
      have ended : Ended closing c := by
        intro token head
        rw [List.eq_nil_of_length_eq_zero (Nat.le_zero.1 enough)] at head
        cases head
      exact ⟨[], c, manyWithin_ended ended _, .done c, ended⟩
  | succ rounds ih =>
      intro c hc enough
      by_cases ended : Ended closing c
      · exact ⟨[], c, manyWithin_ended ended _, .done c, ended⟩
      · obtain ⟨token, tail, hrest, going⟩ := exists_of_not_ended ended
        have some : c.rest ≠ [] := hrest ▸ List.cons_ne_nil token tail
        obtain ⟨first, d, round⟩ := exists_round h hc some
        have fewer := round.progress
        obtain ⟨others, c', run, passes, ended'⟩ := ih d (round.leads.bounded hc) (by omega)
        refine ⟨first.toList ++ others, c', ?_, .round ended round passes, ended'⟩
        rw [manyWithin_round hrest going, bind_apply, round.run]
        dsimp only
        rw [bind_apply, run]
        rfl

/-- Rounds made are rounds that the loop makes. -/
theorem Passes.manyWithin {closing : Option Token.Kind} {rule : Parse α} {c c' : Cursor}
    {as : List α} (h : Passes closing rule c as c') :
    ∀ rounds, c.rest.length ≤ rounds → ∃ rounds', c'.rest.length ≤ rounds' ∧
      manyWithin closing rule rounds c =
        (Parse.manyWithin closing rule rounds' >>= fun others => pure (as ++ others)) c' := by
  induction h with
  | done c =>
      intro rounds enough
      refine ⟨rounds, enough, ?_⟩
      rw [bind_apply]
      cases Parse.manyWithin closing rule rounds c <;> rfl
  | @round c d c' first others going round _ ih =>
      intro rounds enough
      have fewer := round.progress
      obtain ⟨token, tail, hrest, going'⟩ := exists_of_not_ended going
      obtain ⟨rounds, rfl⟩ : ∃ n, rounds = n + 1 := Nat.exists_eq_add_one_of_ne_zero (by omega)
      obtain ⟨rounds', enough', run⟩ := ih rounds (by omega)
      refine ⟨rounds', enough', ?_⟩
      rw [manyWithin_round hrest going', bind_apply, round.run]
      dsimp only
      rw [bind_apply, run, bind_apply, bind_apply]
      cases Parse.manyWithin closing rule rounds' c' with
      | error e d' => rfl
      | ok others' d' =>
          show EStateM.Result.ok _ _ = EStateM.Result.ok _ _
          rw [List.append_assoc]

/-! ### Rounds made behind other errors -/

theorem Round.behind {rule : Parse α} (h : Nearsighted (fun _ => True) true rule) {c c' : Cursor}
    {first : Option α} (round : Round rule c first c') (hc : c.rest.length ≤ c.size)
    (earlier : List SyntaxError) {size : Nat} (enough : c.rest.length ≤ size) :
    Round rule (c.behind earlier size) first (c'.behind earlier size) where
  run := by
    have some : c.rest ≠ [] := by
      intro none
      have fewer := round.progress
      rw [none] at fewer
      cases fewer
    have both : Coincide _ (fun _ _ => False) (recovering rule c)
        (recovering rule (c.behind earlier size)) :=
      .recovering (fun _ => trivial) h (.behind earlier size) ⟨rfl, hc, enough⟩ some
    rw [round.run] at both
    obtain ⟨_, run, ⟨rfl, -⟩, -⟩ := both.of_ok
    exact run
  leads := ⟨round.leads.rest, round.leads.endLine, rfl,
    (List.prefix_append_right_inj earlier).2 round.leads.errors⟩
  progress := round.progress
  recovered none := ⟨fun same => (round.recovered none).1 (List.append_cancel_left same),
    (round.recovered none).2⟩

namespace Passes

variable {closing : Option Token.Kind} {rule : Parse α} {c c' c'' : Cursor} {as bs : List α}

theorem trans (h : Passes closing rule c as c') (h' : Passes closing rule c' bs c'') :
    Passes closing rule c (as ++ bs) c'' := by
  induction h with
  | done c => exact h'
  | round going first _ ih =>
      rw [List.append_assoc]
      exact .round going first (ih h')

theorem leads (h : Passes closing rule c as c') : c.Leads c' := by
  induction h with
  | done c => exact .refl c
  | round _ first _ ih => exact first.leads.trans ih

theorem behind (rounds : Nearsighted (fun _ => True) true rule)
    (h : Passes closing rule c as c') (hc : c.rest.length ≤ c.size)
    (earlier : List SyntaxError) {size : Nat} (enough : c.rest.length ≤ size) :
    Passes closing rule (c.behind earlier size) as (c'.behind earlier size) := by
  induction h with
  | done c => exact .done _
  | round going first _ ih =>
      have fewer := first.progress
      exact .round going (first.behind rounds hc earlier enough)
        (ih (first.leads.bounded hc) (by omega))

/-- A loop whose rounds have come to its end yields what they did. -/
theorem many (h : Passes closing rule c as c') (ended : Ended closing c')
    (hc : c.rest.length ≤ c.size) : many closing rule c = .ok as c' := by
  obtain ⟨rounds, -, run⟩ := h.manyWithin c.size hc
  rw [Parse.many, run, bind_apply, manyWithin_ended ended]
  show EStateM.Result.ok _ _ = EStateM.Result.ok _ _
  rw [List.append_nil]

end Passes

/-! ## Programs -/

/-- A declaration where so many levels may be opened and so many function bodies are
open: what a program and every block in it repeat. -/
def declarationWithin (levels functions : Nat) : Parse Stmt :=
  declaration (expression levels) (statement levels functions)

theorem Nearsighted.declarationWithin (levels functions : Nat) :
    Nearsighted (fun _ => True) true (declarationWithin levels functions) :=
  .declaration (fun _ => trivial) (.expression (fun _ _ => trivial) levels)
    (.statement (fun _ => trivial) levels functions)

/-- Loops over declarations do not depend on their bound, from any cursor that has no
more tokens left than there were at the start. -/
theorem exists_passes (closing : Option Token.Kind) (levels functions : Nat) {c : Cursor}
    (hc : c.rest.length ≤ c.size) :
    ∃ statements c', Passes closing (declarationWithin levels functions) c statements c' ∧
      Ended closing c' ∧ ∀ size, c.rest.length ≤ size →
        many closing (declarationWithin levels functions) (c.behind [] size) =
          .ok statements (c'.behind [] size) := by
  have rounds := Nearsighted.declarationWithin levels functions
  obtain ⟨statements, c', -, passes, ended⟩ :=
    manyWithin_passes closing rounds c.size c hc hc
  refine ⟨statements, c', passes, ended, fun size enough => ?_⟩
  exact (rounds.many closing fun _ => trivial).behind hc [] enough (passes.many ended hc)

end Parse

namespace Program

open Parse

/-- A program is accepted if its rounds have recorded no error. -/
theorem parse_of_passes {tokens : List Token} {program : Program} {c : Cursor}
    (h : Passes none (declarationWithin maxNesting 0) (.ofTokens tokens) program c)
    (ended : c.rest = []) :
    parse tokens = if c.errors = [] then .ok program else .error c.errors := by
  have run : Parse.program (.ofTokens tokens) = .ok program c :=
    h.many (ended_none_iff.2 ended) (Nat.le_refl _)
  rw [parse, run]

theorem exists_passes (tokens : List Token) : ∃ program c,
    Passes none (declarationWithin maxNesting 0) (.ofTokens tokens) program c ∧ c.rest = [] := by
  obtain ⟨program, c, passes, ended, -⟩ :=
    Parse.exists_passes none maxNesting 0 (Nat.le_refl (Cursor.ofTokens tokens).rest.length)
  exact ⟨program, c, passes, ended_none_iff.1 ended⟩

/-- Parsing comes to an end on every token list.

Wherever a declaration is tried, for the program or for a block in it, the round reads
a token before the end, and leaves the cursor at a boundary if it fails.  So the loop
comes to its end by rounds alone, whatever bound it is given.  The tokens of a program
are read to the end in this way, and it is accepted exactly if no error is recorded. -/
theorem parse_terminates :
    (∀ (closing : Option Token.Kind) (levels functions : Nat) (c : Cursor),
      c.rest.length ≤ c.size →
      (c.rest ≠ [] → ∃ first c', Round (declarationWithin levels functions) c first c') ∧
      ∃ statements c', Passes closing (declarationWithin levels functions) c statements c' ∧
        Ended closing c' ∧ ∀ size, c.rest.length ≤ size →
          many closing (declarationWithin levels functions) (c.behind [] size) =
            .ok statements (c'.behind [] size)) ∧
    ∀ tokens, ∃ program c,
      Passes none (declarationWithin maxNesting 0) (.ofTokens tokens) program c ∧ c.rest = [] ∧
      parse tokens = if c.errors = [] then .ok program else .error c.errors := by
  refine ⟨fun closing levels functions c hc => ⟨fun some => ?_, ?_⟩, fun tokens => ?_⟩
  · exact exists_round (.declarationWithin levels functions) hc some
  · exact Parse.exists_passes closing levels functions hc
  · obtain ⟨program, c, passes, ended⟩ := exists_passes tokens
    exact ⟨program, c, passes, ended, parse_of_passes passes ended⟩

/-- In a block that is not closed, in a token list without an end-of-file token, a
declaration that fails at once still makes a round. -/
theorem round_unclosed : ∃ first c', Round (declarationWithin maxNesting 0)
    ⟨[⟨.kwElse, "else", none, 1⟩, ⟨.rightParen, ")", none, 1⟩], 1, 3, []⟩ first c' :=
  (parse_terminates.1 (some .rightBrace) maxNesting 0 _ (by decide)).1 (by decide)

end Program

end Scriptlet
