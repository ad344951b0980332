/-
# Cursors show what is left of a list

Of each place that a reader of a whole list comes to a cursor shows what the rules of
the grammar may know: the tokens up to the end, and the line of the end
(`Indexed.Reader.Shown`).  It cannot show the token of the end itself, for that may be
any end-of-file token or missing; where a rule looks at it, its kind and its line are
all that matters.

A rule in the whole list does as shown if it comes to the same as the rule of the
grammar on each such cursor, be it a failure, and the cursor shows where it stops
(`Indexed.AsShown`).  The lemmas follow the steps and loops that the rules are made of.
A loop on a cursor goes round at most as often as the cursor says, so the cursor has to
say as many rounds as the reader has tokens in its list.
-/
import Scriptlet.Proofs.Parsing.Continued
import Scriptlet.Proofs.Parsing.Indexed

namespace Scriptlet

open Grammar

namespace Indexed

variable {α β : Type}

/-! ## The line of the end -/

section Line

variable {tokens : List Token} (real : ∀ token ∈ tokens, token.kind ≠ .eof)

include real

theorem endLineOf_of_real : Cursor.endLineOf tokens = lastLine tokens := by
  have none : tokens.find? (·.kind = .eof) = none :=
    List.find?_eq_none.2 fun token member => by simpa using real token member
  rw [Cursor.endLineOf, none, lastLine]
  cases tokens.getLast? <;> rfl

theorem endLineOf_append_eof {eof : Token} (ends : eof.kind = .eof) (behind : List Token) :
    Cursor.endLineOf (tokens ++ eof :: behind) = eof.line := by
  have found : (eof :: behind).find? (·.kind = .eof) = some eof :=
    List.find?_cons_of_pos (decide_eq_true ends)
  rw [Cursor.endLineOf_append real (List.cons_ne_nil _ _), Cursor.endLineOf, found]

end Line

/-! ## What a cursor shows -/

/-- The reader has the given tokens; the cursor has those from its index to the end, which
is not before the index, and its errors. -/
structure Reader.Shown (r : Reader) (tokens : List Token) (c : Cursor) : Prop where
  whole : r.tokens = tokens
  rest : c.rest = readable (r.tokens.drop r.index)
  endLine : c.endLine = Cursor.endLineOf r.tokens
  size : c.size = r.tokens.length
  errors : c.errors = r.errors
  passed : ∀ token ∈ r.tokens.take r.index, token.kind ≠ .eof

theorem Reader.shown_ofTokens (tokens : List Token) :
    (ofTokens tokens).Shown tokens ((Cursor.ofTokens tokens).behind [] tokens.length) :=
  ⟨rfl, rfl, rfl, rfl, rfl, List.forall_mem_nil _⟩

namespace Reader.Shown

variable {r : Reader} {tokens : List Token} {c : Cursor}

theorem getElem?_of_cons {token : Token} {behind : List Token}
    (here : r.tokens.drop r.index = token :: behind) : r.tokens[r.index]? = some token := by
  rw [← List.head?_drop, here, List.head?_cons]

/-- Going on by a token that does not end the script. -/
theorem step (h : r.Shown tokens c) {token : Token} {behind : List Token}
    (here : r.tokens.drop r.index = token :: behind) (real : token.kind ≠ .eof) :
    Shown { r with index := r.index + 1 } tokens (c.facing (readable behind)) where
  whole := h.whole
  rest := by
    rw [← List.tail_drop, here]
    rfl
  endLine := h.endLine
  size := h.size
  errors := h.errors
  passed := by
    rw [List.take_add_one, getElem?_of_cons here]
    exact List.forall_mem_append.2 ⟨h.passed, by simpa using real⟩

theorem record (h : r.Shown tokens c) (e : SyntaxError) :
    (r.record e).Shown tokens { c with errors := c.errors ++ [e] } where
  whole := h.whole
  rest := h.rest
  endLine := h.endLine
  size := h.size
  errors := congrArg (· ++ [e]) h.errors
  passed := h.passed

/-- Either both are at the end, or both have the same token next. -/
theorem cases (h : r.Shown tokens c) :
    (r.atEnd ∧ c.rest = [] ∧ r.current.kind = .eof ∧ r.current.line = c.endLine) ∨
      (¬ r.atEnd ∧ ∃ tail, c.rest = r.current :: tail ∧ r.next.Shown tokens (c.facing tail) ∧
        r.next.previous? = some r.current) := by
  cases here : r.tokens.drop r.index with
  | nil =>
      have missing : r.current = .endOfFile (lastLine r.tokens) := by
        rw [Reader.current, List.getElem?_eq_none (List.drop_eq_nil_iff.1 here), Option.getD_none]
      have real : ∀ token ∈ r.tokens, token.kind ≠ .eof := by
        have all := h.passed
        rwa [List.take_of_length_le (List.drop_eq_nil_iff.1 here)] at all
      refine .inl ⟨?_, ?_, ?_, ?_⟩
      · rw [atEnd, missing]
        rfl
      · rw [h.rest, here]
        rfl
      · rw [missing]
        rfl
      · rw [missing, h.endLine, endLineOf_of_real real]
        rfl
  | cons token behind =>
      have found : r.current = token := by
        rw [Reader.current, getElem?_of_cons here, Option.getD_some]
      by_cases ends : token.kind = .eof
      · refine .inl ⟨?_, ?_, found ▸ ends, ?_⟩
        · rw [atEnd, found]
          exact decide_eq_true ends
        · rw [h.rest, here, readable, List.takeWhile_cons_of_neg (by simpa using ends)]
        · rw [found, h.endLine, ← List.take_append_drop r.index r.tokens, here,
            endLineOf_append_eof h.passed ends]
      · have going : ¬ r.atEnd := by
          rw [atEnd, found]
          simpa using ends
        have moved : r.next = { r with index := r.index + 1 } := if_neg going
        refine .inr ⟨going, readable behind, ?_, ?_, ?_⟩
        · rw [h.rest, here, found, readable, List.takeWhile_cons_of_pos (by simpa using ends)]
          rfl
        · rw [moved]
          exact h.step here ends
        · rw [moved, found]
          exact getElem?_of_cons here

theorem current_kind (h : r.Shown tokens c) : r.current.kind = c.current.kind := by
  obtain ⟨-, rest, kind, -⟩ | ⟨-, tail, rest, -⟩ := h.cases
  · rw [kind, Cursor.current, rest, List.headD_nil]
    rfl
  · rw [Cursor.current, rest, List.headD_cons]

theorem current_eq (h : r.Shown tokens c) (real : r.current.kind ≠ .eof) :
    r.current = c.current := by
  obtain ⟨-, -, kind, -⟩ | ⟨-, tail, rest, -⟩ := h.cases
  · exact absurd kind real
  · rw [Cursor.current, rest, List.headD_cons]

/-- An error is the same at either token, for of an end only the line is told. -/
theorem atToken_current (h : r.Shown tokens c) (cause : SyntaxError.Cause) :
    SyntaxError.atToken cause r.current = .atToken cause c.current := by
  obtain ⟨-, rest, kind, line⟩ | ⟨-, tail, rest, -⟩ := h.cases
  · rw [SyntaxError.atToken, if_pos kind, line, Cursor.current, rest, List.headD_nil]
    rfl
  · rw [Cursor.current, rest, List.headD_cons]

theorem next (h : r.Shown tokens c) : r.next.Shown tokens (c.facing c.rest.tail) := by
  obtain ⟨ended, rest, -⟩ | ⟨-, tail, rest, goesOn, -⟩ := h.cases
  · rwa [Reader.next, if_pos ended, rest, List.tail_nil, Cursor.facing_of_rest rest]
  · rwa [rest, List.tail_cons]

/-- The search for a statement, by what is left to be read. -/
theorem skipToStatement (h : r.Shown tokens c) {last : Token} (before : r.previous? = some last) :
    r.skipToStatement.Shown tokens (c.facing (Scriptlet.skipToStatement last.kind c.rest)) := by
  induction hrest : c.rest generalizing r c last with
  | nil =>
      obtain ⟨ended, -⟩ | ⟨-, tail, more, -⟩ := h.cases
      · rw [Reader.skipToStatement, if_pos ended, Scriptlet.skipToStatement,
          Cursor.facing_of_rest hrest]
        exact h
      · rw [hrest] at more
        cases more
  | cons token tail ih =>
      obtain ⟨-, nothing, -⟩ | ⟨going, tail', same, goesOn, passed⟩ := h.cases
      · rw [hrest] at nothing
        cases nothing
      · rw [hrest] at same
        cases same
        have stops : r.previous?.any (·.kind = .semicolon) = decide (last.kind = .semicolon) := by
          rw [before]
          rfl
        rw [Reader.skipToStatement, if_neg going, stops, Scriptlet.skipToStatement]
        by_cases semicolon : last.kind = .semicolon
        · rw [if_pos (decide_eq_true semicolon), if_pos (by simp [semicolon]),
            Cursor.facing_of_rest hrest]
          exact h
        · rw [if_neg (by simpa using semicolon)]
          by_cases starts : r.current.kind.startsStatement
          · rw [if_pos starts, if_pos (by simp [starts]), Cursor.facing_of_rest hrest]
            exact h
          · rw [if_neg starts, if_neg (by simp [semicolon, starts])]
            exact ih goesOn passed rfl

theorem synchronize (h : r.Shown tokens c) :
    r.synchronize.Shown tokens (c.facing (Scriptlet.synchronize c.rest)) := by
  obtain ⟨ended, rest, -⟩ | ⟨-, tail, rest, goesOn, passed⟩ := h.cases
  · rw [Reader.synchronize, Reader.next, if_pos ended, Reader.skipToStatement, if_pos ended, rest,
      Scriptlet.synchronize, Cursor.facing_of_rest rest]
    exact h
  · rw [rest, Scriptlet.synchronize, Reader.synchronize]
    exact goesOn.skipToStatement passed

end Reader.Shown

/-! ## Rules that do as shown -/

/-- Both succeed with the same or fail with the same error, and stop at the same place. -/
inductive SameEnd (tokens : List Token) :
    EStateM.Result SyntaxError Reader α → EStateM.Result SyntaxError Cursor α → Prop
  | ok (a : α) {r : Reader} {c : Cursor} :
      r.Shown tokens c → SameEnd tokens (.ok a r) (.ok a c)
  | error (e : SyntaxError) {r : Reader} {c : Cursor} :
      r.Shown tokens c → SameEnd tokens (.error e r) (.error e c)

/-- Where a cursor shows what is left, the rule in the whole list ends as the rule of the
grammar does on the cursor. -/
def AsShown (indexed : Indexed α) (rule : Parse α) : Prop :=
  ∀ ⦃tokens : List Token⦄ ⦃r : Reader⦄ ⦃c : Cursor⦄, r.Shown tokens c →
    SameEnd tokens (indexed r) (rule c)

namespace AsShown

variable {indexed : Indexed α} {rule : Parse α}

/-! ### Steps -/

theorem pure (a : α) : AsShown (Pure.pure a) (Pure.pure a) := fun _ _ _ shown => .ok a shown

theorem bind (h : AsShown indexed rule) {next : α → Indexed β} {next' : α → Parse β}
    (h' : ∀ a, AsShown (next a) (next' a)) : AsShown (indexed >>= next) (rule >>= next') := by
  intro tokens r c shown
  have first := h shown
  rw [bind_apply, bind_apply]
  generalize indexed r = result, rule c = result' at first
  cases first with
  | ok a there => exact h' a there
  | error e there => exact .error e there

theorem map (h : AsShown indexed rule) (f : α → β) : AsShown (f <$> indexed) (f <$> rule) :=
  h.bind fun a => pure (f a)

/-- What depends on the next token may rely on how it is shown. -/
theorem current {next : Token → Indexed α} {next' : Token → Parse α}
    (h : ∀ ⦃tokens : List Token⦄ ⦃r : Reader⦄ ⦃c : Cursor⦄, r.Shown tokens c →
      SameEnd tokens (next r.current r) (next' c.current c)) :
    AsShown (Indexed.current >>= next) (Parse.current >>= next') := fun _ _ _ shown => h shown

theorem check (kind : Token.Kind) : AsShown (check kind) (Parse.check kind) := by
  intro tokens r c shown
  rw [Indexed.check, Parse.check, shown.current_kind]
  exact .ok _ shown

theorem fail (cause : SyntaxError.Cause) :
    AsShown (fail cause : Indexed α) (Parse.fail cause) := by
  intro tokens r c shown
  rw [Indexed.fail, Parse.fail, shown.atToken_current]
  exact .error _ shown

theorem failAt (cause : SyntaxError.Cause) (token : Token) :
    AsShown (failAt cause token : Indexed α) (Parse.failAt cause token) :=
  fun _ _ _ shown => .error _ shown

theorem record (cause : SyntaxError.Cause) (token : Token) :
    AsShown (record cause token) (Parse.record cause token) :=
  fun _ _ _ shown => .ok () (shown.record _)

/-- An error at the next token is recorded alike. -/
theorem recordCurrent (cause : SyntaxError.Cause) (h : AsShown indexed rule) :
    AsShown (do Indexed.record cause (← Indexed.current); indexed)
      (do Parse.record cause (← Parse.current); rule) := by
  refine current fun tokens r c shown => ?_
  rw [bind_apply, bind_apply, Indexed.record, Parse.record, shown.atToken_current]
  exact h (shown.record _)

/-- What follows the current token. -/
theorem next (h : AsShown indexed rule) :
    AsShown (do Indexed.next; indexed) (do let _ ← Parse.next; rule) :=
  fun _ _ _ shown => h shown.next

theorem accept? {wanted : List Token.Kind} (real : .eof ∉ wanted) :
    AsShown (Indexed.accept? wanted) (Parse.accept? wanted) := by
  intro tokens r c shown
  rw [Indexed.accept?, Parse.accept?]
  obtain ⟨-, rest, kind, -⟩ | ⟨-, tail, rest, goesOn, -⟩ := shown.cases
  · rw [rest, kind, if_neg real]
    exact .ok none shown
  · rw [rest]
    dsimp only
    split
    · exact .ok _ goesOn
    · exact .ok none shown

/-- What follows a token of a wanted kind, and what comes otherwise. -/
theorem accept {wanted : List Token.Kind} (real : .eof ∉ wanted)
    {next : Option Token → Indexed α} {next' : Option Token → Parse α}
    (h : ∀ token, AsShown (next (some token)) (next' (some token)))
    (h' : AsShown (next none) (next' none)) :
    AsShown (Indexed.accept? wanted >>= next) (Parse.accept? wanted >>= next') :=
  (accept? real).bind fun
    | some token => h token
    | none => h'

theorem token {kind : Token.Kind} (real : kind ≠ .eof) (cause : SyntaxError.Cause) :
    AsShown (Indexed.expect kind cause) (Parse.expect kind cause) :=
  accept (fun same => real (List.mem_singleton.1 same).symm) pure (fail cause)

/-- What follows a token of the given kind. -/
theorem expect {kind : Token.Kind} (real : kind ≠ .eof) {cause : SyntaxError.Cause}
    {next : Token → Indexed α} {next' : Token → Parse α}
    (h : ∀ token, AsShown (next token) (next' token)) :
    AsShown (Indexed.expect kind cause >>= next) (Parse.expect kind cause >>= next') :=
  (token real cause).bind h

/-! ### Loops -/

/-- A loop may go round as often on either side. -/
theorem loop {indexed : Nat → Indexed α} {rule : Nat → Parse α}
    (h : ∀ rounds, AsShown (indexed rounds) (rule rounds)) :
    AsShown (fun r => indexed r.tokens.length r) (fun c => rule c.size c) := by
  intro tokens r c shown
  dsimp only
  rw [shown.size]
  exact h _ shown

theorem chain {wanted : List Token.Kind} (real : .eof ∉ wanted) {step : α → Token → Indexed α}
    {step' : α → Token → Parse α} (h : ∀ a token, AsShown (step a token) (step' a token)) (a : α) :
    AsShown (chain wanted step a) (Parse.chain wanted step' a) := by
  have within : ∀ rounds, AsShown (chainWithin wanted step rounds a)
      (Parse.chainWithin wanted step' rounds a) := by
    intro rounds
    induction rounds generalizing a with
    | zero => exact pure a
    | succ rounds ih => exact accept real (fun token => (h a token).bind ih) (pure a)
  exact loop within

/-- A rule may fail inside of recovery; then both go on at the same token. -/
theorem recovering (h : AsShown indexed rule) :
    AsShown (recovering indexed) (Parse.recovering rule) := by
  intro tokens r c shown
  have ended := h shown
  rw [Indexed.recovering, Parse.recovering]
  generalize indexed r = result, rule c = result' at ended
  cases ended with
  | ok a there => exact .ok (some a) there
  | error e there => exact .ok none (there.record e).synchronize

theorem many (closing : Option Token.Kind) (h : AsShown indexed rule) :
    AsShown (many closing indexed) (Parse.many closing rule) := by
  have within : ∀ rounds, AsShown (manyWithin closing indexed rounds)
      (Parse.manyWithin closing rule rounds) := by
    intro rounds
    induction rounds with
    | zero => exact pure []
    | succ rounds ih =>
        intro tokens r c shown
        unfold manyWithin
        obtain ⟨ended, rest, -⟩ | ⟨going, tail, rest, -⟩ := shown.cases
        · rw [if_pos (.inl ended), Parse.manyWithin_ended (by simp [rest])]
          exact .ok [] shown
        · by_cases closes : closing = some r.current.kind
          · rw [if_pos (.inr closes), Parse.manyWithin_ended (by simp [rest, closes])]
            exact .ok [] shown
          · rw [if_neg (not_or.2 ⟨going, closes⟩), Parse.manyWithin_round rest closes]
            exact (h.recovering.bind fun first => ih.bind fun others => pure _) shown
  exact loop within

end AsShown

end Indexed

end Scriptlet
